import Gems.Index.Codec
import Gems.Index.Steps

set_option autoImplicit false

namespace Gems.Index

open Lib Prog BTree

inductive Op (K V : Type) where
  | insert (key : K) (value : V)
  | delete (key : K)
  | reopen

inductive Reply (V : Type) where
  | done
  | removed (value : Option V)

section Reference

variable {K V : Type} [LinearOrder K]

-- The reference map.
def Op.onMap : Op K V → (K → Option V) → K → Option V
  | .insert key value, map => Function.update map key (some value)
  | .delete key, map => Function.update map key none
  | .reopen, map => map

def Op.reply : Op K V → (K → Option V) → Reply V
  | .delete key, map => .removed (map key)
  | _, _ => .done

def contents (ops : List (Op K V)) (map : K → Option V) : K → Option V :=
  ops.foldl (fun map op => op.onMap map) map

def replies : List (Op K V) → (K → Option V) → List (Reply V)
  | [], _ => []
  | op :: rest, map => op.reply map :: replies rest (op.onMap map)

end Reference

variable {K V : Type} [LinearOrder K] [FixedCodec K] [FixedCodec V]

section Runs

-- What the operation gives, and the tree it leaves.
def Op.exec (os : PageSize) (fuel : Nat) : Op K V → BTree → Except Fault (Reply V) × BTree
  | .insert key value, t =>
    match (BTree.insert os fuel key value).run t with
    | (.ok (), t') => (.ok .done, t')
    | (.error e, t') => (.error e, t')
  | .delete key, t =>
    match (BTree.delete V os fuel key).run t with
    | (.ok removed, t') => (.ok (.removed removed), t')
    | (.error e, t') => (.error e, t')
  | .reopen, t =>
    match BTree.openFile os t.pager.onDisk with
    | .ok t' => (.ok .done, t')
    | .error e => (.error e, t)

def runAll (os : PageSize) (fuel : Nat) : List (Op K V) → BTree → Except Fault (List (Reply V)) × BTree
  | [], t => (.ok [], t)
  | op :: rest, t =>
    match op.exec os fuel t with
    | (.ok reply, t') =>
      match runAll os fuel rest t' with
      | (.ok more, t'') => (.ok (reply :: more), t'')
      | (.error e, t'') => (.error e, t'')
    | (.error e, t') => (.error e, t')

variable {os : PageSize} {t : BTree} {map : K → Option V} {own free lost : List Nat} {depth fuel : Nat}

theorem exec_spec (os : PageSize) (keeps : Keeps t map depth own free lost) (enough : depth ≤ fuel) (op : Op K V) :
    match op.exec os fuel t with
    | (.ok reply, t') => reply = op.reply map ∧
      ∃ own' free', Keeps t' (op.onMap map) (depth + 1) own' free' lost
    | (.error e, t') => e = .panicked ∧ Full t'.pager := by
  cases op with
  | insert key value =>
    have ran := (insert_spec os key value keeps enough).run
    rw [Op.exec]
    cases made : (BTree.insert os fuel key value).run t with
    | mk result t' =>
      rw [made] at ran
      cases result with
      | ok done => exact ⟨rfl, ran.2⟩
      | error e => exact ran.1.resolve_left fun left => not_or.mpr ran.2 left.outside
  | delete key =>
    have ran := (delete_spec os key keeps enough).run
    rw [Op.exec]
    cases made : (BTree.delete V os fuel key).run t with
    | mk result t' =>
      rw [made] at ran
      cases result with
      | ok removed =>
        obtain ⟨rfl, -, own', free', keeps'⟩ := ran
        exact ⟨rfl, own', free', keeps'.good, keeps'.maps.deeper (Nat.le_succ _), keeps'.caps⟩
      | error e => exact ran.1.resolve_left fun left => not_or.mpr ran.2 left.outside
  | reopen =>
    obtain ⟨t', opened, header, good, maps⟩ := reopen_spec os keeps.maps
    rw [Op.exec, opened]
    refine ⟨rfl, own, free, good, maps.deeper (Nat.le_succ _), ?_⟩
    rw [header]
    exact keeps.caps

theorem runAll_spec (os : PageSize) (keeps : Keeps t map depth own free lost) {ops : List (Op K V)}
    (enough : depth + ops.length ≤ fuel) :
    match runAll os fuel ops t with
    | (.ok given, t') => given = replies ops map ∧
      ∃ depth' own' free', depth' ≤ depth + ops.length ∧ Keeps t' (contents ops map) depth' own' free' lost
    | (.error e, t') => e = .panicked ∧ Full t'.pager := by
  induction ops generalizing t map depth own free with
  | nil => exact ⟨rfl, depth, own, free, le_rfl, keeps⟩
  | cons op rest ih =>
    rw [List.length_cons] at enough
    have step := exec_spec os keeps (by omega : depth ≤ fuel) op
    rw [runAll]
    cases made : op.exec os fuel t with
    | mk result t' =>
      rw [made] at step
      cases result with
      | error e => exact step
      | ok reply =>
        obtain ⟨rfl, own', free', keeps'⟩ := step
        have later := ih keeps' (by omega)
        dsimp only
        cases made' : runAll os fuel rest t' with
        | mk result' t'' =>
          rw [made'] at later
          cases result' with
          | error e => exact later
          | ok more =>
            obtain ⟨rfl, depth', own'', free'', shallow, whole⟩ := later
            refine ⟨rfl, depth', own'', free'', ?_, whole⟩
            rw [List.length_cons]
            omega

omit [LinearOrder K] in
theorem create_large {pageSize : Nat} (created : BTree.create K V os pageSize = .ok t) :
    headerEncodedLen ≤ pageSize := by
  by_contra small
  rw [BTree.create, Pager.create, if_pos (Nat.lt_of_not_le small)] at created
  cases created

theorem created_header {pageSize : UInt32} (created : BTree.create K V os pageSize.toNat = .ok t) :
    t.pager.header = newHeader K V pageSize.toNat := by
  obtain ⟨t', opened, header, -⟩ := create_spec K V os (create_large created) pageSize.toNat_lt
  obtain rfl : t' = t := Except.ok.inj (opened.symm.trans created)
  exact header

theorem created_keeps {pageSize : UInt32} (caps : Capacities K V pageSize.toNat)
    (created : BTree.create K V os pageSize.toNat = .ok t) :
    Keeps t (fun _ : K => (none : Option V)) 0 [] [] [] := by
  obtain ⟨t', opened, header, good, maps⟩ :=
    create_spec K V os (create_large created) pageSize.toNat_lt
  obtain rfl : t' = t := Except.ok.inj (opened.symm.trans created)
  refine ⟨good, maps, ?_⟩
  rw [header]
  exact caps

variable (V) in
/-- Every answer of the run is the reference map's, unless the page ids or the commit numbers ran out. -/
def AnswersAsMap (os : PageSize) (fuel : Nat) (ops : List (Op K V)) (t : BTree) : Prop :=
  match runAll os fuel ops t with
  | (.ok given, t') => given = replies ops (fun _ => none) ∧
    (∀ key, BTree.get V fuel t' key = .ok (contents ops (fun _ => none) key)) ∧
    ∃ entries, BTree.scanAll K V fuel t' = .ok entries ∧ (entries.Pairwise fun a b => a.1 < b.1) ∧
      ∀ key value, (key, value) ∈ entries ↔ contents ops (fun _ => none) key = some value
  | (.error e, t') => e = .panicked ∧ Full t'.pager

theorem tree_refines_map {pageSize : UInt32} (caps : Capacities K V pageSize.toNat)
    (created : BTree.create K V os pageSize.toNat = .ok t) (ops : List (Op K V))
    (enough : ops.length ≤ fuel) : AnswersAsMap V os fuel ops t := by
  have ran := runAll_spec os (created_keeps caps created) ((Nat.zero_add _).trans_le enough)
  unfold AnswersAsMap
  cases made : runAll os fuel ops t with
  | mk result t' =>
    rw [made] at ran
    cases result with
    | error e => exact ran
    | ok given =>
      obtain ⟨rfl, depth', own, free, deep, keeps⟩ := ran
      have shallow : depth' ≤ fuel := by omega
      obtain ⟨entries, scanned, lists⟩ := keeps.scan shallow
      exact ⟨rfl, keeps.get shallow, entries, scanned, lists.sorted, lists.mem_iff⟩

-- The primary index: 24-byte keys and 13-byte values in pages of 4096 bytes.
theorem primary_capacities : Capacities Tuid Storage.SlotPointer (4096 : UInt32).toNat where
  leaf := by decide
  leafSmall := by decide
  internal := by decide
  internalSmall := by decide

theorem tree_refines_map_primary :
    ∃ t, BTree.create Tuid Storage.SlotPointer ⟨4096, 12, le_rfl, rfl⟩ (4096 : UInt32).toNat = .ok t ∧
      AnswersAsMap Storage.SlotPointer ⟨4096, 12, le_rfl, rfl⟩ 3
        [.insert Tuid.nil ⟨0, 1, 2, 3⟩, .delete Tuid.nil, .reopen] t := by
  have large : headerEncodedLen ≤ (4096 : UInt32).toNat := by decide
  obtain ⟨t, created, -⟩ := create_spec Tuid Storage.SlotPointer ⟨4096, 12, le_rfl, rfl⟩ large (4096 : UInt32).toNat_lt
  exact ⟨t, created, tree_refines_map primary_capacities created _ le_rfl⟩

end Runs

end Gems.Index

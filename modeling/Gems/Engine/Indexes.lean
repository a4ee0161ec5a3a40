import Gems.Engine.Store
import Gems.Index.Steps

set_option autoImplicit false

namespace Gems.Engine

open Lib Prog Index

variable {K V : Type} [LinearOrder K] [FixedCodec K] [FixedCodec V]

/-- An open index of a store that holds `map`. -/
structure Indexed (t : BTree) (map : K → Option V) (depth : Nat) : Prop where
  keeps : ∃ own free lost, Keeps t map depth own free lost
  size : t.pager.header.pageSize = defaultIndexPageSize.toNat

/-- An index file that holds `map`, as the next open finds it. -/
def OnFile (t : BTree) (map : K → Option V) (depth : Nat) : Prop :=
  ∃ h free own lost, h.pageSize = defaultIndexPageSize.toNat ∧
    Maps (t.pager.file h free) map depth own lost

/-- What a call leaves of an index when it is cut short: the file, and the open index too unless it was stopped. -/
def IndexLeft (e : Fault) (t : BTree) (map : K → Option V) (depth : Nat) : Prop :=
  e = .stopped ∧ OnFile t map depth ∨ e = .refused ∧ Indexed t map depth

variable {os : PageSize} {t t' : BTree} {map map' : K → Option V} {depth depth' fuel : Nat} {key : K} {value : V}
  {e : Fault}

theorem Indexed.deeper (indexed : Indexed t map depth) (deeper : depth ≤ depth') :
    Indexed t map depth' := by
  obtain ⟨⟨own, free, lost, keeps⟩, size⟩ := indexed
  exact ⟨⟨own, free, lost, keeps.good, keeps.maps.deeper deeper, keeps.caps⟩, size⟩

theorem OnFile.deeper (file : OnFile t map depth) (deeper : depth ≤ depth') : OnFile t map depth' := by
  obtain ⟨h, free, own, lost, size, maps⟩ := file
  exact ⟨h, free, own, lost, size, maps.deeper deeper⟩

theorem Indexed.onFile (indexed : Indexed t map depth) : OnFile t map depth := by
  obtain ⟨⟨own, free, lost, keeps⟩, size⟩ := indexed
  exact ⟨t.pager.fileHeader, free, own, lost, size, keeps.maps⟩

theorem Indexed.left (indexed : Indexed t map depth) (outside : e.Outside) : IndexLeft e t map depth :=
  outside.imp (fun stop => ⟨stop, indexed.onFile⟩) fun refused => ⟨refused, indexed⟩

theorem IndexLeft.onFile (left : IndexLeft e t map depth) : OnFile t map depth :=
  left.elim And.right fun open_ => open_.2.onFile

theorem IndexLeft.outside (left : IndexLeft e t map depth) : e.Outside := left.imp And.left And.left

theorem IndexLeft.indexed (left : IndexLeft .refused t map depth) : Indexed t map depth :=
  (left.resolve_left fun stop => by cases stop.1).2

theorem indexLeft_of_leftAs {pageSize : Nat} (caps : Capacities K V pageSize)
    (size : pageSize = defaultIndexPageSize.toNat) (left : LeftAs map pageSize depth e t) :
    IndexLeft e t map depth := by
  obtain ⟨h, free, own, lost, same, maps, stop | ⟨rfl, cut⟩⟩ := left
  · exact .inl ⟨stop, h, free, own, lost, same.trans size, maps⟩
  · obtain ⟨same', keeps⟩ := LeftAs.keeps ⟨h, free, own, lost, same, maps, .inr ⟨rfl, cut⟩⟩ caps
    exact .inr ⟨rfl, keeps, same'.trans size⟩

theorem Indexed.get (indexed : Indexed t map depth) (enough : depth ≤ fuel) (key : K) :
    BTree.get V fuel t key = .ok (map key) := by
  obtain ⟨⟨own, free, lost, keeps⟩, -⟩ := indexed
  exact keeps.get enough key

theorem Indexed.scan (indexed : Indexed t map depth) (enough : depth ≤ fuel) :
    ∃ entries, BTree.scanAll K V fuel t = .ok entries ∧ Lists entries map := by
  obtain ⟨⟨own, free, lost, keeps⟩, -⟩ := indexed
  exact keeps.scan enough

theorem Indexed.insert (indexed : Indexed t map depth) (enough : depth ≤ fuel) (os : PageSize) (key : K)
    (value : V) :
    Spec (BTree.insert os fuel key value) t
      (fun _ t' => Indexed t' (Function.update map key (some value)) (depth + 1))
      (fun e t' => (IndexLeft e t' map (depth + 1) ∨
        IndexLeft e t' (Function.update map key (some value)) (depth + 1)) ∨ e = .panicked ∧ Full t'.pager) := by
  obtain ⟨⟨own, free, lost, keeps⟩, size⟩ := indexed
  refine spec_weaken (insert_spec os key value keeps enough) ?_ ?_
  · rintro - t' ⟨same, own', free', keeps'⟩
    exact ⟨⟨own', free', lost, keeps'⟩, same.trans size⟩
  · exact fun e t' => Or.imp_left
      (Or.imp (indexLeft_of_leftAs keeps.caps size) (indexLeft_of_leftAs keeps.caps size))

theorem Indexed.insert_halves (indexed : Indexed t map depth) (enough : depth ≤ fuel) (os : PageSize) (key : K)
    (value : V) :
    Spec (BTree.untilRoot os fuel key value) t
      (fun base t1 => Spec (BTree.afterRoot os base) t1
        (fun _ t' => Indexed t' (Function.update map key (some value)) (depth + 1))
        (fun e t' => IndexLeft e t' (Function.update map key (some value)) (depth + 1)))
      (fun e t' => IndexLeft e t' map (depth + 1) ∨ e = .panicked ∧ Full t'.pager) := by
  obtain ⟨⟨own, free, lost, keeps⟩, size⟩ := indexed
  refine spec_weaken (Index.insert_halves os key value keeps enough) ?_ ?_
  · intro base t1 rest
    refine spec_weaken rest ?_ fun e t' => indexLeft_of_leftAs keeps.caps size
    rintro - t' ⟨same, own', free', keeps'⟩
    exact ⟨⟨own', free', lost, keeps'⟩, same.trans size⟩
  · exact fun e t' => Or.imp_left (indexLeft_of_leftAs keeps.caps size)

theorem Indexed.delete (indexed : Indexed t map depth) (enough : depth ≤ fuel) (os : PageSize) (key : K) :
    Spec (BTree.delete V os fuel key) t
      (fun removed t' => removed = map key ∧ Indexed t' (Function.update map key none) depth)
      (fun e t' => (IndexLeft e t' map depth ∨
        IndexLeft e t' (Function.update map key none) depth) ∨ e = .panicked ∧ Full t'.pager) := by
  obtain ⟨⟨own, free, lost, keeps⟩, size⟩ := indexed
  refine spec_weaken (delete_spec os key keeps enough) ?_ ?_
  · rintro removed t' ⟨found, same, own', free', keeps'⟩
    exact ⟨found, ⟨own', free', lost, keeps'⟩, same.trans size⟩
  · exact fun e t' => Or.imp_left
      (Or.imp (indexLeft_of_leftAs keeps.caps size) (indexLeft_of_leftAs keeps.caps size))

theorem Indexed.untilErased (indexed : Indexed t map depth) (enough : depth ≤ fuel) (os : PageSize) (key : K) :
    Spec (BTree.untilErased V os fuel key) t (fun _ _ => True)
      (fun e t' => IndexLeft e t' map depth ∨ e = .panicked ∧ Full t'.pager) := by
  obtain ⟨⟨own, free, lost, keeps⟩, size⟩ := indexed
  refine spec_weaken (untilErased_spec keeps.good keeps.caps keeps.maps enough) (fun _ _ here => here) ?_
  exact fun e t' halted => (halted.old keeps.maps le_rfl).imp_left (indexLeft_of_leftAs keeps.caps size)

theorem OnFile.open (os : PageSize) (caps : Capacities K V defaultIndexPageSize.toNat)
    (file : OnFile t map depth) :
    ∃ t', BTree.openFile os t.pager.onDisk = .ok t' ∧ Indexed t' map depth := by
  obtain ⟨h, free, own, lost, size, maps⟩ := file
  obtain ⟨t', opened, header, good, maps'⟩ := reopen_spec os maps
  rw [← header] at size
  exact ⟨t', opened, ⟨own, free, lost, good, maps', size ▸ caps⟩, size⟩

theorem Indexed.create (os : PageSize) (caps : Capacities K V defaultIndexPageSize.toNat) :
    ∃ t, BTree.create K V os defaultIndexPageSize.toNat = .ok t ∧
      Indexed t (fun _ : K => (none : Option V)) 0 := by
  obtain ⟨t, made, header, good, maps⟩ :=
    create_spec K V os (by decide) defaultIndexPageSize.toNat_lt
  have size : t.pager.header.pageSize = defaultIndexPageSize.toNat := by rw [header]; rfl
  exact ⟨t, made, ⟨[], [], [], good, maps, size ▸ caps⟩, size⟩

section Capacity

theorem primary_caps : Capacities Tuid Storage.SlotPointer defaultIndexPageSize.toNat where
  leaf := by decide
  leafSmall := by decide
  internal := by decide
  internalSmall := by decide

theorem ordinal_caps : Capacities Tuid Ordinal defaultIndexPageSize.toNat where
  leaf := by decide
  leafSmall := by decide
  internal := by decide
  internalSmall := by decide

theorem reverse_caps : Capacities Ordinal Tuid defaultIndexPageSize.toNat where
  leaf := by decide
  leafSmall := by decide
  internal := by decide
  internalSmall := by decide

end Capacity

end Gems.Engine

import Gems.Bitmap.Container
import Gems.Lib.SortedMap
import Mathlib.Data.Finset.Sort

set_option autoImplicit false

namespace Gems.Bitmap

open Lib

-- The containers of the low 16 bits, by the high 16 bits.
structure RoaringBitmap where
  chunks : SortedMap Low Container

def high (value : UInt32) : Low := ⟨(value >>> 16).toNat, by
  have := value.toNat_lt
  rw [UInt32.toNat_shiftRight, show (16 : UInt32).toNat % 32 = 16 from rfl, Nat.shiftRight_eq_div_pow]
  omega⟩

def low (value : UInt32) : Low := ⟨(value &&& 0xffff).toNat, by
  rw [UInt32.toNat_and, show (0xffff : UInt32).toNat = 2 ^ 16 - 1 from rfl, Nat.and_two_pow_sub_one_eq_mod]
  exact Nat.mod_lt _ (by decide)⟩

def join (high low : Low) : UInt32 := (UInt32.ofNat high <<< 16) ||| UInt32.ofNat low

namespace RoaringBitmap

def new : RoaringBitmap := ⟨.empty⟩

def insert (b : RoaringBitmap) (value : UInt32) : RoaringBitmap × Bool :=
  let (container, inserted) := ((b.chunks.get (high value)).getD .newArray).insert (low value)
  (⟨b.chunks.insert (high value) container⟩, inserted)

def remove (b : RoaringBitmap) (value : UInt32) : RoaringBitmap × Bool :=
  match b.chunks.get (high value) with
  | some container =>
    let (container, removed) := container.remove (low value)
    (⟨if container.isEmpty then b.chunks.erase (high value)
      else b.chunks.insert (high value) container⟩, removed)
  | none => (b, false)

def contains (b : RoaringBitmap) (value : UInt32) : Bool :=
  ((b.chunks.get (high value)).map fun c => c.contains (low value)).getD false

def len (b : RoaringBitmap) : Nat := (b.chunks.entries.map fun e => e.2.len).sum

def isEmpty (b : RoaringBitmap) : Bool := b.chunks.entries.isEmpty

def toVec (b : RoaringBitmap) : List UInt32 := b.chunks.entries.flatMap fun e => e.2.iter.map (join e.1)

def fromIter (values : List UInt32) : RoaringBitmap := values.foldl (fun b v => (b.insert v).1) new

-- Only containers that are not empty go into a result.
def keep (c : Container) : Option Container := if c.isEmpty then none else some c

def union (b other : RoaringBitmap) : RoaringBitmap :=
  ⟨.ofKeys ((b.chunks.keys ++ other.chunks.keys).toFinset.sort (· ≤ ·)) fun high =>
    match b.chunks.get high, other.chunks.get high with
    | some c, some d => keep (c.union d)
    | some c, none => keep c
    | none, some d => keep d
    | none, none => none⟩

def intersect (b other : RoaringBitmap) : RoaringBitmap :=
  ⟨.ofKeys b.chunks.keys fun high =>
    match b.chunks.get high, other.chunks.get high with
    | some c, some d => keep (c.intersect d)
    | _, _ => none⟩

def andNot (b other : RoaringBitmap) : RoaringBitmap :=
  ⟨.ofKeys b.chunks.keys fun high =>
    match b.chunks.get high, other.chunks.get high with
    | some c, none => some c
    | some c, some d => keep (.collect (fun v => !d.contains v) c.iter)
    | none, _ => none⟩

def Valid (b : RoaringBitmap) : Prop := ∀ high c, b.chunks.get high = some c → c.Valid ∧ c.isEmpty = false

def Has (b : RoaringBitmap) (value : UInt32) : Prop :=
  ∃ c, b.chunks.get (high value) = some c ∧ c.Has (low value)

end RoaringBitmap

section Split

variable {value v w : UInt32} {h l h' l' : Low}

theorem high_val (value : UInt32) : (high value).val = value.toNat / 65536 := by
  rw [high]
  dsimp only
  rw [UInt32.toNat_shiftRight, show (16 : UInt32).toNat % 32 = 16 from rfl, Nat.shiftRight_eq_div_pow]

theorem low_val (value : UInt32) : (low value).val = value.toNat % 65536 := by
  rw [low]
  dsimp only
  rw [UInt32.toNat_and, show (0xffff : UInt32).toNat = 2 ^ 16 - 1 from rfl, Nat.and_two_pow_sub_one_eq_mod]

theorem toNat_join (h l : Low) : (join h l).toNat = h.val * 65536 + l.val := by
  have small := h.isLt
  have small' := l.isLt
  have front : (UInt32.ofNat h.val).toNat = h.val := Nat.mod_eq_of_lt (by omega)
  have back : (UInt32.ofNat l.val).toNat = l.val := Nat.mod_eq_of_lt (by omega)
  rw [join, UInt32.toNat_or, UInt32.toNat_shiftLeft, front, back,
    show (16 : UInt32).toNat % 32 = 16 from rfl, Nat.shiftLeft_eq, Nat.mod_eq_of_lt (by omega),
    Nat.mul_comm, ← Nat.two_pow_add_eq_or_of_lt small', Nat.mul_comm]

theorem join_split (value : UInt32) : join (high value) (low value) = value := by
  apply UInt32.toNat_inj.mp
  rw [toNat_join, high_val, low_val]
  omega

theorem split_join (h l : Low) : high (join h l) = h ∧ low (join h l) = l := by
  have small := l.isLt
  constructor
  · apply Fin.ext
    rw [high_val, toNat_join]
    omega
  · apply Fin.ext
    rw [low_val, toNat_join]
    omega

end Split

namespace RoaringBitmap

variable {b other : RoaringBitmap} {value v : UInt32} {h : Low} {c : Container}

section Specs

theorem new_valid : new.Valid := by
  intro high c found
  cases found

theorem new_has : ¬ new.Has v := by
  rintro ⟨c, found, -⟩
  cases found

theorem same_split (sameHigh : high v = high value) (sameLow : low v = low value) : v = value := by
  rw [← join_split v, ← join_split value, sameHigh, sameLow]

theorem contains_iff (valid : b.Valid) : b.contains v = true ↔ b.Has v := by
  rw [contains, Has]
  cases found : b.chunks.get (high v) with
  | none => simp
  | some c => simp [Container.contains_iff (valid _ c found).1]

-- One container is replaced; what it holds decides.
theorem has_insert {value : UInt32} {c : Container}
    (each : ∀ x, c.Has x ↔ x = low value ∨ ∃ d, b.chunks.get (high value) = some d ∧ d.Has x) :
    (RoaringBitmap.mk (b.chunks.insert (high value) c)).Has v ↔ v = value ∨ b.Has v := by
  rw [Has, SortedMap.get_insert]
  by_cases same : high v = high value
  · rw [same, Function.update_self]
    have here : v = value ↔ low v = low value := ⟨fun h => by rw [h], same_split same⟩
    simp only [Option.some.injEq, exists_eq_left', each, here, Has, same]
  · rw [Function.update_of_ne same]
    have other : v ≠ value := fun h => same (by rw [h])
    simp only [other, false_or, Has]

theorem insert_spec (valid : b.Valid) (value : UInt32) :
    (b.insert value).1.Valid ∧ (∀ v, (b.insert value).1.Has v ↔ v = value ∨ b.Has v) ∧
      ((b.insert value).2 = true ↔ ¬ b.Has value) := by
  have old : ∀ x, ((b.chunks.get (high value)).getD .newArray).Has x ↔
      ∃ d, b.chunks.get (high value) = some d ∧ d.Has x := by
    intro x
    cases found : b.chunks.get (high value) with
    | none => simp [Container.newArray_has]
    | some d => simp
  have validOld : ((b.chunks.get (high value)).getD .newArray).Valid := by
    cases found : b.chunks.get (high value) with
    | none => exact Container.newArray_valid
    | some d => exact (valid _ d found).1
  obtain ⟨valid', has', new'⟩ := Container.insert_spec validOld (low value)
  refine ⟨?_, fun v => ?_, ?_⟩
  · intro h c found
    rw [insert, SortedMap.get_insert] at found
    by_cases same : h = high value
    · subst same
      rw [Function.update_self] at found
      obtain rfl := Option.some.inj found
      refine ⟨valid', Bool.eq_false_iff.mpr fun empty => ?_⟩
      exact (Container.isEmpty_iff _).mp empty (low value) ((has' _).mpr (.inl rfl))
    · rw [Function.update_of_ne same] at found
      exact valid h c found
  · exact has_insert fun x => (has' x).trans (or_congr Iff.rfl (old x))
  · rw [insert]
    exact new'.trans (not_congr (old _))

theorem remove_spec (valid : b.Valid) (value : UInt32) :
    (b.remove value).1.Valid ∧ (∀ v, (b.remove value).1.Has v ↔ v ≠ value ∧ b.Has v) ∧
      ((b.remove value).2 = true ↔ b.Has value) := by
  rw [remove]
  cases found : b.chunks.get (high value) with
  | none =>
    have absent : ¬ b.Has value := by
      rintro ⟨c, here, -⟩
      rw [found] at here
      cases here
    refine ⟨valid, fun v => ⟨fun here => ⟨?_, here⟩, And.right⟩, by simp [absent]⟩
    rintro rfl
    exact absent here
  | some d =>
    obtain ⟨valid', has', removed⟩ := Container.remove_spec (valid _ d found).1 (low value)
    have here : b.Has value ↔ d.Has (low value) := by simp [Has, found]
    refine ⟨?_, fun v => ?_, removed.trans here.symm⟩
    · intro h c known
      dsimp only at known
      split at known
      · rw [SortedMap.get_erase] at known
        by_cases same : h = high value
        · subst same
          rw [Function.update_self] at known
          cases known
        · rw [Function.update_of_ne same] at known
          exact valid h c known
      next filled =>
        rw [SortedMap.get_insert] at known
        by_cases same : h = high value
        · subst same
          rw [Function.update_self] at known
          obtain rfl := Option.some.inj known
          exact ⟨valid', Bool.eq_false_iff.mpr filled⟩
        · rw [Function.update_of_ne same] at known
          exact valid h c known
    · have apart : v ≠ value ∧ b.Has v ↔
          if high v = high value then (d.remove (low value)).1.Has (low v) else b.Has v := by
        split
        next same =>
          have lows : v ≠ value ↔ low v ≠ low value :=
            not_congr ⟨fun h => by rw [h], same_split same⟩
          rw [has', lows, Has, same, found]
          simp
        next same =>
          have other : v ≠ value := fun h => same (by rw [h])
          simp [other]
      rw [apart, Has]
      dsimp only
      split
      next empty =>
        rw [SortedMap.get_erase]
        by_cases same : high v = high value
        · rw [same, Function.update_self, if_pos rfl]
          simpa using (Container.isEmpty_iff _).mp empty (low v)
        · rw [Function.update_of_ne same, if_neg same, Has]
      next filled =>
        rw [SortedMap.get_insert]
        by_cases same : high v = high value
        · rw [same, Function.update_self, if_pos rfl]
          simp
        · rw [Function.update_of_ne same, if_neg same, Has]

theorem keep_spec (valid : c.Valid) {d : Container} (kept : keep c = some d) : d.Valid ∧ d.isEmpty = false := by
  rw [keep] at kept
  split at kept
  · cases kept
  next filled =>
    obtain rfl := Option.some.inj kept
    exact ⟨valid, Bool.eq_false_iff.mpr filled⟩

theorem keep_has {x : Low} : (∃ d, keep c = some d ∧ d.Has x) ↔ c.Has x := by
  rw [keep]
  split
  next empty => simpa using (Container.isEmpty_iff c).mp empty x
  next => simp

theorem ofKeys_spec {keys : List Low} {f : Low → Option Container} {p : Low → Low → Prop}
    (valid : ∀ high c, f high = some c → c.Valid ∧ c.isEmpty = false)
    (has : ∀ high x, (∃ c, f high = some c ∧ c.Has x) ↔ p high x)
    (all : ∀ high x, p high x → high ∈ keys) :
    (RoaringBitmap.mk (.ofKeys keys f)).Valid ∧
      ∀ v, (RoaringBitmap.mk (.ofKeys keys f)).Has v ↔ p (high v) (low v) := by
  constructor
  · intro h c found
    rw [SortedMap.get_ofKeys] at found
    split at found
    · exact valid h c found
    · cases found
  · intro v
    rw [Has, SortedMap.get_ofKeys]
    split
    next => exact has (high v) (low v)
    next missing =>
      refine iff_of_false (by simp) fun here => missing (all _ _ here)

theorem mem_keys_of_has {x : Low} (here : ∃ c, b.chunks.get h = some c ∧ c.Has x) : h ∈ b.chunks.keys := by
  obtain ⟨c, found, -⟩ := here
  rw [SortedMap.mem_keys, found]
  simp

theorem union_spec (valid : b.Valid) (valid' : other.Valid) :
    (b.union other).Valid ∧ ∀ v, (b.union other).Has v ↔ b.Has v ∨ other.Has v := by
  refine ofKeys_spec (p := fun h x => (∃ c, b.chunks.get h = some c ∧ c.Has x) ∨
    ∃ c, other.chunks.get h = some c ∧ c.Has x) ?_ ?_ ?_
  · intro h c made
    cases foundB : b.chunks.get h with
    | none =>
      cases foundO : other.chunks.get h with
      | none =>
        rw [foundB, foundO] at made
        cases made
      | some d =>
        rw [foundB, foundO] at made
        exact keep_spec (valid' h d foundO).1 made
    | some a =>
      cases foundO : other.chunks.get h with
      | none =>
        rw [foundB, foundO] at made
        exact keep_spec (valid h a foundB).1 made
      | some d =>
        rw [foundB, foundO] at made
        exact keep_spec (Container.union_spec a d).1 made
  · intro h x
    cases b.chunks.get h with
    | none =>
      cases other.chunks.get h with
      | none => simp
      | some d => simpa using keep_has
    | some a =>
      cases other.chunks.get h with
      | none => simpa using keep_has
      | some d =>
        refine keep_has.trans ?_
        simpa using (Container.union_spec a d).2 x
  · intro h x here
    rw [Finset.mem_sort, List.mem_toFinset, List.mem_append]
    exact here.imp mem_keys_of_has mem_keys_of_has

theorem intersect_spec (valid : b.Valid) (valid' : other.Valid) :
    (b.intersect other).Valid ∧ ∀ v, (b.intersect other).Has v ↔ b.Has v ∧ other.Has v := by
  refine ofKeys_spec (p := fun h x => (∃ c, b.chunks.get h = some c ∧ c.Has x) ∧
    ∃ c, other.chunks.get h = some c ∧ c.Has x) ?_ ?_ ?_
  · intro h c made
    cases foundB : b.chunks.get h with
    | none =>
      rw [foundB] at made
      cases made
    | some a =>
      cases foundO : other.chunks.get h with
      | none =>
        rw [foundB, foundO] at made
        cases made
      | some d =>
        rw [foundB, foundO] at made
        exact keep_spec (Container.intersect_spec (valid h a foundB).1 (valid' h d foundO).1).1 made
  · intro h x
    cases foundB : b.chunks.get h with
    | none => simp
    | some a =>
      cases foundO : other.chunks.get h with
      | none => simp
      | some d =>
        refine keep_has.trans ?_
        simpa using (Container.intersect_spec (valid h a foundB).1 (valid' h d foundO).1).2 x
  · exact fun h x here => mem_keys_of_has here.1

theorem andNot_spec (valid : b.Valid) (valid' : other.Valid) :
    (b.andNot other).Valid ∧ ∀ v, (b.andNot other).Has v ↔ b.Has v ∧ ¬ other.Has v := by
  refine ofKeys_spec (p := fun h x => (∃ c, b.chunks.get h = some c ∧ c.Has x) ∧
    ¬ ∃ c, other.chunks.get h = some c ∧ c.Has x) ?_ ?_ ?_
  · intro h c made
    cases foundB : b.chunks.get h with
    | none =>
      rw [foundB] at made
      cases made
    | some a =>
      cases foundO : other.chunks.get h with
      | none =>
        rw [foundB, foundO] at made
        obtain rfl := Option.some.inj made
        exact valid h a foundB
      | some d =>
        rw [foundB, foundO] at made
        exact keep_spec (Container.collect_spec _ _).1 made
  · intro h x
    cases foundB : b.chunks.get h with
    | none => simp
    | some a =>
      cases foundO : other.chunks.get h with
      | none => simp
      | some d =>
        refine keep_has.trans ?_
        rw [(Container.collect_spec _ _).2, Container.mem_iter, Bool.not_eq_true', Bool.eq_false_iff]
        simpa using fun _ => not_congr (Container.contains_iff (valid' h d foundO).1)
  · exact fun h x here => mem_keys_of_has here.1

theorem fromIter_spec (values : List UInt32) :
    (fromIter values).Valid ∧ ∀ v, (fromIter values).Has v ↔ v ∈ values := by
  have loop (values : List UInt32) (b : RoaringBitmap) (valid : b.Valid) :
      (values.foldl (fun b v => (b.insert v).1) b).Valid ∧
      ∀ v, (values.foldl (fun b v => (b.insert v).1) b).Has v ↔ v ∈ values ∨ b.Has v := by
    induction values generalizing b with
    | nil => exact ⟨valid, fun v => by simp⟩
    | cons value rest ih =>
      obtain ⟨valid', has', -⟩ := insert_spec valid value
      obtain ⟨whole, each⟩ := ih _ valid'
      refine ⟨whole, fun v => ?_⟩
      rw [List.foldl_cons, each, has', List.mem_cons]
      tauto
  obtain ⟨valid, has⟩ := loop values new new_valid
  exact ⟨valid, fun v => (has v).trans (or_iff_left new_has)⟩

theorem mem_toVec (b : RoaringBitmap) : v ∈ b.toVec ↔ b.Has v := by
  simp only [toVec, List.mem_flatMap, List.mem_map, Container.mem_iter, Prod.exists, SortedMap.mem_entries]
  constructor
  · rintro ⟨h, c, found, l, has, rfl⟩
    obtain ⟨sameHigh, sameLow⟩ := split_join h l
    exact ⟨c, by rw [sameHigh, found], by rwa [sameLow]⟩
  · rintro ⟨c, found, has⟩
    exact ⟨high v, c, found, low v, has, join_split v⟩

theorem toVec_sorted (valid : b.Valid) : b.toVec.Pairwise (· < ·) := by
  have below {h h' l l' : Low} (less : h < h' ∨ h = h' ∧ l < l') : join h l < join h' l' := by
    rw [UInt32.lt_iff_toNat_lt, toNat_join, toNat_join]
    have small := l.isLt
    rcases less with first | ⟨rfl, second⟩
    · have := Fin.lt_def.mp first
      omega
    · have := Fin.lt_def.mp second
      omega
  refine List.pairwise_flatMap.mpr ⟨?_, ?_⟩
  · rintro ⟨h, c⟩ mem
    obtain ⟨validC, -⟩ := valid h c (SortedMap.mem_entries.mp mem)
    exact List.pairwise_map.mpr ((Container.iter_sorted validC).imp fun less => below (.inr ⟨rfl, less⟩))
  · refine b.chunks.sorted.imp fun less x memX y memY => ?_
    obtain ⟨l, -, rfl⟩ := List.mem_map.mp memX
    obtain ⟨l', -, rfl⟩ := List.mem_map.mp memY
    exact below (.inl less)

theorem length_toVec (b : RoaringBitmap) : b.toVec.length = b.len := by
  simp only [toVec, List.length_flatMap, List.length_map, Container.length_iter, len]

theorem isEmpty_iff (valid : b.Valid) : b.isEmpty = true ↔ ∀ v, ¬ b.Has v := by
  rw [isEmpty, List.isEmpty_iff]
  constructor
  · rintro none v ⟨c, found, -⟩
    have mem := SortedMap.mem_entries.mpr found
    rw [none] at mem
    cases mem
  · intro none
    refine List.eq_nil_iff_forall_not_mem.mpr ?_
    rintro ⟨h, c⟩ mem
    have found := SortedMap.mem_entries.mp mem
    obtain ⟨-, filled⟩ := valid h c found
    refine Bool.eq_false_iff.mp filled ((Container.isEmpty_iff c).mpr fun l has => ?_)
    obtain ⟨sameHigh, sameLow⟩ := split_join h l
    exact none (join h l) ⟨c, by rw [sameHigh, found], by rwa [sameLow]⟩

end Specs

section Refinement

/-- The ways to come by a bitmap. -/
inductive Build where
  | new
  | insert (b : Build) (value : UInt32)
  | remove (b : Build) (value : UInt32)
  | fromIter (values : List UInt32)
  | union (b other : Build)
  | intersect (b other : Build)
  | andNot (b other : Build)

def Build.bitmap : Build → RoaringBitmap
  | .new => .new
  | .insert b value => (b.bitmap.insert value).1
  | .remove b value => (b.bitmap.remove value).1
  | .fromIter values => .fromIter values
  | .union b other => b.bitmap.union other.bitmap
  | .intersect b other => b.bitmap.intersect other.bitmap
  | .andNot b other => b.bitmap.andNot other.bitmap

-- The same on sets.
def Build.set : Build → Finset UInt32
  | .new => ∅
  | .insert b value => Insert.insert value b.set
  | .remove b value => b.set.erase value
  | .fromIter values => values.toFinset
  | .union b other => b.set ∪ other.set
  | .intersect b other => b.set ∩ other.set
  | .andNot b other => b.set \ other.set

/-- The bitmap answers as the set, and is in order. -/
structure Agrees (b : RoaringBitmap) (s : Finset UInt32) : Prop where
  contains : ∀ v, b.contains v = true ↔ v ∈ s
  insert : ∀ v, (b.insert v).2 = true ↔ v ∉ s
  remove : ∀ v, (b.remove v).2 = true ↔ v ∈ s
  len : b.len = s.card
  isEmpty : b.isEmpty = true ↔ s = ∅
  sorted : b.toVec.Pairwise (· < ·)
  elements : ∀ v, v ∈ b.toVec ↔ v ∈ s
  chunks : b.Valid

theorem build_spec (build : Build) : build.bitmap.Valid ∧ ∀ v, build.bitmap.Has v ↔ v ∈ build.set := by
  induction build with
  | new => exact ⟨new_valid, fun v => iff_of_false new_has (Finset.notMem_empty v)⟩
  | insert b value ih =>
    obtain ⟨valid, has, -⟩ := insert_spec ih.1 value
    exact ⟨valid, fun v => by rw [Build.bitmap, has, ih.2, Build.set, Finset.mem_insert]⟩
  | remove b value ih =>
    obtain ⟨valid, has, -⟩ := remove_spec ih.1 value
    exact ⟨valid, fun v => by rw [Build.bitmap, has, ih.2, Build.set, Finset.mem_erase]⟩
  | fromIter values =>
    obtain ⟨valid, has⟩ := fromIter_spec values
    exact ⟨valid, fun v => by rw [Build.bitmap, has, Build.set, List.mem_toFinset]⟩
  | union b other ih ih' =>
    obtain ⟨valid, has⟩ := union_spec ih.1 ih'.1
    exact ⟨valid, fun v => by rw [Build.bitmap, has, ih.2, ih'.2, Build.set, Finset.mem_union]⟩
  | intersect b other ih ih' =>
    obtain ⟨valid, has⟩ := intersect_spec ih.1 ih'.1
    exact ⟨valid, fun v => by rw [Build.bitmap, has, ih.2, ih'.2, Build.set, Finset.mem_inter]⟩
  | andNot b other ih ih' =>
    obtain ⟨valid, has⟩ := andNot_spec ih.1 ih'.1
    exact ⟨valid, fun v => by rw [Build.bitmap, has, ih.2, ih'.2, Build.set, Finset.mem_sdiff]⟩

theorem bitmap_refines_set (build : Build) : Agrees build.bitmap build.set := by
  obtain ⟨valid, has⟩ := build_spec build
  have elements (v : UInt32) : v ∈ build.bitmap.toVec ↔ v ∈ build.set := (mem_toVec _).trans (has v)
  have sorted := toVec_sorted valid
  have distinct : build.bitmap.toVec.Nodup :=
    sorted.imp fun {v w} (less : v < w) (same : v = w) => UInt32.lt_irrefl w (same ▸ less)
  exact
    { contains := fun v => (contains_iff valid).trans (has v)
      insert := fun v => (insert_spec valid v).2.2.trans (not_congr (has v))
      remove := fun v => (remove_spec valid v).2.2.trans (has v)
      len := by
        have same : build.bitmap.toVec.toFinset = build.set := Finset.ext fun v => by
          rw [List.mem_toFinset, elements]
        rw [← length_toVec, ← same, List.toFinset_card_of_nodup distinct]
      isEmpty := by
        rw [isEmpty_iff valid, Finset.eq_empty_iff_forall_notMem]
        exact forall_congr' fun v => not_congr (has v)
      sorted := sorted
      elements := elements
      chunks := valid }

end Refinement

end RoaringBitmap

end Gems.Bitmap

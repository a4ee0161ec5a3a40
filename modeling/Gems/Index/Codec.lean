import Gems.Index.Node
import Gems.Tuid

set_option autoImplicit false

namespace Gems.Index

open Lib Storage

instance : FixedCodec Tuid where
  len := tuidLen
  encode := Tuid.bytes
  decode := Tuid.fromBytes
  length_encode := Tuid.length_eq
  decode_encode := Tuid.fromBytes_bytes

def encodeSlot (p : SlotPointer) : List UInt8 :=
  littleEndian 4 p.fileId.toNat ++ (littleEndian 4 p.extentIndex.toNat ++
    (littleEndian 4 p.slotIndex.toNat ++ [p.blockClass]))

def decodeSlot (bytes : List UInt8) : SlotPointer where
  fileId := UInt32.ofNat (ofLittleEndian (bytes.take 4))
  extentIndex := UInt32.ofNat (ofLittleEndian ((bytes.drop 4).take 4))
  slotIndex := UInt32.ofNat (ofLittleEndian ((bytes.drop 8).take 4))
  blockClass := bytes.getD 12 0

theorem ofNat_littleEndian (n : UInt32) :
    UInt32.ofNat (ofLittleEndian (littleEndian 4 n.toNat)) = n := by
  rw [ofLittleEndian_littleEndian n.toNat_lt, UInt32.ofNat_toNat]

instance : FixedCodec SlotPointer where
  len := 4 + 4 + 4 + 1
  encode := encodeSlot
  decode := decodeSlot
  length_encode := by
    intro p
    simp [encodeSlot]
  decode_encode := by
    intro p
    have word (n : UInt32) := length_littleEndian 4 n.toNat
    have second : (encodeSlot p).drop 4 = littleEndian 4 p.extentIndex.toNat ++
        (littleEndian 4 p.slotIndex.toNat ++ [p.blockClass]) := List.drop_left' (word _)
    have third : (encodeSlot p).drop 8 = littleEndian 4 p.slotIndex.toNat ++ [p.blockClass] := by
      rw [show 8 = 4 + 4 from rfl, ← List.drop_drop, second, List.drop_left' (word _)]
    have last : (encodeSlot p).getD 12 0 = p.blockClass := by
      have fourth : (encodeSlot p).drop 12 = [p.blockClass] := by
        rw [show 12 = 8 + 4 from rfl, ← List.drop_drop, third, List.drop_left' (word _)]
      have here := congrArg List.head? fourth
      rw [List.head?_drop] at here
      rw [List.getD_eq_getElem?_getD, here]
      rfl
    rw [decodeSlot, second, third, last, encodeSlot, List.take_left' (word _),
      List.take_left' (word _), List.take_left' (word _), ofNat_littleEndian, ofNat_littleEndian,
      ofNat_littleEndian]

end Gems.Index

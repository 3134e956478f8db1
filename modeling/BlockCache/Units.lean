import BlockCache.Word
import Std.Data.TreeMap

/-!
# Descriptors, block numbers and byte offsets

The identifiers that the layers of the cache exchange. Each is a number with a unit of
its own, so that a block number is never taken for a byte offset. Descriptors and block
numbers are keys of maps, ordered by their numbers.
-/

namespace BlockCache

abbrev Bytes : Type := List UInt8

structure FileDescriptor where
  number : Int32
deriving DecidableEq, Repr, Inhabited

structure BlockIndex where
  number : UInt64
deriving DecidableEq, Repr, Inhabited

structure ByteOffset where
  number : UInt64
deriving DecidableEq, Repr, Inhabited

instance : Ord FileDescriptor where
  compare a b := compare a.number b.number

instance : Ord BlockIndex where
  compare a b := compare a.number b.number

instance : Std.TransOrd FileDescriptor where
  eq_swap {a b} := Std.OrientedOrd.eq_swap (a := a.number) (b := b.number)
  isLE_trans {a b c} hab hbc :=
    Std.TransOrd.isLE_trans (a := a.number) (b := b.number) (c := c.number) hab hbc

instance : Std.LawfulEqOrd FileDescriptor where
  eq_of_compare {a b} h := by
    cases a
    cases b
    exact congrArg FileDescriptor.mk (Std.LawfulEqOrd.eq_of_compare h)

instance : Std.TransOrd BlockIndex where
  eq_swap {a b} := Std.OrientedOrd.eq_swap (a := a.number) (b := b.number)
  isLE_trans {a b c} hab hbc :=
    Std.TransOrd.isLE_trans (a := a.number) (b := b.number) (c := c.number) hab hbc

instance : Std.LawfulEqOrd BlockIndex where
  eq_of_compare {a b} h := by
    cases a
    cases b
    exact congrArg BlockIndex.mk (Std.LawfulEqOrd.eq_of_compare h)

def FileDescriptor.text (fd : FileDescriptor) : String :=
  toString fd.number.toInt

def BlockIndex.text (index : BlockIndex) : String :=
  toString index.number.toNat

def ByteOffset.text (offset : ByteOffset) : String :=
  toString offset.number.toNat

def ByteOffset.add? (offset : ByteOffset) (bytes : UInt64) : Option ByteOffset :=
  (Word.add? offset.number bytes).map ByteOffset.mk

/-- Offset of the first byte of a block, if it is a 64-bit offset. -/
def BlockIndex.byteOffset? (index : BlockIndex) (blockSize : UInt32) : Option ByteOffset :=
  (Word.mul? index.number blockSize.toUInt64).map ByteOffset.mk

theorem BlockIndex.byteOffset?_eq_some_iff {index : BlockIndex} {blockSize : UInt32}
    {offset : ByteOffset} :
    index.byteOffset? blockSize = some offset <->
      index.number.toNat * blockSize.toNat = offset.number.toNat := by
  cases offset with
  | mk number =>
      rw [byteOffset?, Option.map_eq_some_iff]
      constructor
      · intro h
        rcases h with ⟨product, hproduct, hnumber⟩
        cases hnumber
        simpa using Word.mul?_eq_some_iff.mp hproduct
      · intro h
        exact ⟨number, Word.mul?_eq_some_iff.mpr (by simpa using h), rfl⟩

end BlockCache

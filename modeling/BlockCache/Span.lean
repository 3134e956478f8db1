import BlockCache.Units

/-!
# Byte ranges as spans of blocks

A read asks for the bytes `[offset, offset + len)` of a file, and the cache works in
whole blocks. A `Span` is such a range, known to be non-empty and to end within the
64-bit offsets, and its pieces are the parts of the range that fall into each block.
The end of the last block may lie beyond the 64-bit offsets, so it is capped; the span
itself ends before that, and the cap never shortens a piece.
-/

namespace BlockCache

inductive RangeError where
  | zeroBlockSize
  | overflow (offset : ByteOffset) (len : Nat)
deriving DecidableEq, Repr

def RangeError.message : RangeError -> String
  | .zeroBlockSize => "block size must be non-zero"
  | .overflow offset len =>
      "byte range overflows: offset=" ++ offset.text ++ " len=" ++ toString len

/-- The bytes from `offset` up to `stop`, cut at multiples of `blockSize`. -/
structure Span where
  offset : UInt64
  stop : UInt64
  blockSize : UInt32
  offset_lt_stop : offset < stop
  blockSize_pos : 0 < blockSize
deriving DecidableEq

/-- The part of one block that a span asks for, and where it goes in the reader's buffer. -/
structure Piece where
  index : BlockIndex
  start : Nat
  len : Nat
  dest : Nat
deriving DecidableEq, Repr

namespace Span

theorem lt_stop_of_fits {offset : UInt64} {len : Nat} (hlen : len ≠ 0)
    (hfits : offset.toNat + len < UInt64.size) : offset < offset + UInt64.ofNat len := by
  have hsize : UInt64.size = 2 ^ 64 := rfl
  rw [UInt64.lt_iff_toNat_lt, UInt64.toNat_add, UInt64.toNat_ofNat']
  omega

/--
The span of `len` bytes at `offset`. An empty range has none; a zero block size is
refused before anything else is looked at.
-/
def ofRange (offset : ByteOffset) (len : Nat) (blockSize : UInt32) :
    Except RangeError (Option Span) :=
  if hsize : blockSize = 0 then
    .error .zeroBlockSize
  else if hlen : len = 0 then
    .ok none
  else if hfits : offset.number.toNat + len < UInt64.size then
    .ok (some {
      offset := offset.number
      stop := offset.number + UInt64.ofNat len
      blockSize := blockSize
      offset_lt_stop := lt_stop_of_fits hlen hfits
      blockSize_pos := UInt32.pos_iff_ne_zero.mpr hsize })
  else
    .error (.overflow offset len)

def size (s : Span) : UInt64 :=
  s.blockSize.toUInt64

def first (s : Span) : BlockIndex :=
  ⟨s.offset / s.size⟩

def last (s : Span) : BlockIndex :=
  ⟨(s.stop - 1) / s.size⟩

def count (s : Span) : UInt64 :=
  s.last.number - s.first.number + 1

def pieceAt (s : Span) (index : UInt64) : Piece :=
  let blockStart := index * s.size
  let blockStop := Word.addCapped blockStart s.size
  let lo := max blockStart s.offset
  let hi := min blockStop s.stop
  { index := ⟨index⟩
    start := (lo - blockStart).toNat
    len := (hi - lo).toNat
    dest := (lo - s.offset).toNat }

def firstPieces (s : Span) (limit : Nat) : List Piece :=
  (List.range (min limit s.count.toNat)).map
    fun i => s.pieceAt (s.first.number + UInt64.ofNat i)

def pieces (s : Span) : List Piece :=
  s.firstPieces s.count.toNat

end Span
end BlockCache

import BlockCache.Units

/-!
# File contents

The bytes of a file, either stored or given by a rule. A pattern may be as long as
offsets go, so only the bytes that are asked for are ever computed.
-/

namespace BlockCache

inductive Contents where
  | stored (bytes : Bytes)
  /-- Byte `i` is `seed + step * i + i / 256`, modulo 256. -/
  | pattern (length seed step : UInt64)
deriving DecidableEq, Repr

namespace Contents

def length : Contents -> Nat
  | .stored bytes => bytes.length
  | .pattern length _ _ => length.toNat

/-- The byte at a position; stored contents go on with zeros and a pattern with itself. -/
def byteAt (contents : Contents) (position : UInt64) : UInt8 :=
  match contents with
  | .stored bytes => bytes.getD position.toNat 0
  | .pattern _ seed step => (seed + step * position + (position >>> 8)).toUInt8

/-- `count` bytes from `start` on, whether or not the file has them; positions wrap. -/
def unbounded (contents : Contents) (start : UInt64) (count : Nat) : Bytes :=
  (List.range count).map fun i => contents.byteAt (start + UInt64.ofNat i)

def slice (contents : Contents) (start : UInt64) (count : Nat) : Bytes :=
  match contents with
  | .stored bytes => (bytes.drop start.toNat).take count
  | .pattern length _ _ => contents.unbounded start (min count (length.toNat - start.toNat))

end Contents
end BlockCache

/-!
# Statistics

Totals kept over the life of a cache. Dropping blocks does not reset them. None of them is
ever larger than the number of bytes that were asked for, so 64-bit words hold them as long
as that number is less than 2 ^ 64.
-/

namespace BlockCache

structure Stats where
  hits : Nat := 0
  misses : Nat := 0
  evictions : Nat := 0
  bytesRead : Nat := 0
  fetchFailures : Nat := 0
  shortReads : Nat := 0
deriving DecidableEq, Repr, Inhabited

def Stats.hitRatio (stats : Stats) : Float :=
  let total := stats.hits + stats.misses
  if total = 0 then 0.0 else Float.ofNat stats.hits / Float.ofNat total

end BlockCache

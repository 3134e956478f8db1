import BlockCache.Index
import BlockCache.Source.Basic
import BlockCache.Stats
import BlockCache.RecencyList.Operations

/-!
# The cache

A cache stands in front of a block source. It keeps the recency list of resident blocks,
the index that finds them, and statistics, and it owns the source it asks on a miss.

Every operation answers a `Step`: the value for the caller, the cache afterwards and the
events in between. An operation has no step only if the recency list is corrupt.
-/

namespace BlockCache

structure Cache (σ : Type) where
  config : Config
  source : σ
  list : RecencyList
  index : Index
  stats : Stats

structure Step (σ α : Type) where
  value : α
  cache : Cache σ
  events : List Event

def Step.map {σ α β : Type} (f : α -> β) (step : Step σ α) : Step σ β :=
  { step with value := f step.value }

namespace Cache

variable {σ : Type}

def create (config : Config) (source : σ) : Except Error (Step σ Unit) := do
  config.validate
  let cache : Cache σ :=
    { config := config
      source := source
      list := .empty config.maxNew.toNat config.maxOld.toNat
      index := .empty
      stats := {} }
  return ⟨(), cache, [.created config]⟩

def capacity (c : Cache σ) : Nat :=
  c.config.capacity.toNat

def length (c : Cache σ) : Nat :=
  c.list.length

def isEmpty (c : Cache σ) : Bool :=
  c.length = 0

def segmentSizes (c : Cache σ) : SegmentSizes :=
  c.list.sizes

def slot? (c : Cache σ) (fd : FileDescriptor) (index : BlockIndex) : Option Slot :=
  c.index.find? ⟨fd, index⟩

def isResident (c : Cache σ) (fd : FileDescriptor) (index : BlockIndex) : Bool :=
  (c.slot? fd index).isSome

def counter? (c : Cache σ) (fd : FileDescriptor) (index : BlockIndex) : Option UInt64 :=
  (c.slot? fd index).bind fun slot => (c.list.block? slot).map Block.counter

def segment? (c : Cache σ) (fd : FileDescriptor) (index : BlockIndex) : Option Segment :=
  (c.slot? fd index).bind c.list.segment?

/-- The resident blocks with their segments, most recently used first. -/
def residents (c : Cache σ) : Except Corruption (List (Block × Segment)) := do
  let entries <- c.list.entries
  return entries.map fun e => (e.2.block, e.2.segment)

end Cache
end BlockCache

import BlockCache.Cache.Drop
import BlockCache.Cache.Read

/-!
# Runs of a cache

The operations that change a cache, as values, and what a sequence of them comes to.
-/

namespace BlockCache
namespace Cache

variable {σ : Type}

inductive Operation where
  | read (fd : FileDescriptor) (offset : ByteOffset) (buf : Bytes)
  | readRaw (fd : FileDescriptor) (offset : ByteOffset) (size : Nat) (buf : Bytes)
  | invalidate (fd : FileDescriptor) (order : SlotOrder)
  | clear

inductive Answer where
  | reading (reading : Reading (Except Error Nat))
  | rawReading (reading : Reading Int)
  | dropped (count : Nat)
  | cleared

def perform [BlockSource σ] (c : Cache σ) : Operation -> Except Corruption (Step σ Answer)
  | .read fd offset buf => (c.read fd offset buf).map (Step.map .reading)
  | .readRaw fd offset size buf => (c.readRaw fd offset size buf).map (Step.map .rawReading)
  | .invalidate fd order => (c.invalidate fd order).map (Step.map .dropped)
  | .clear => .ok (c.clear.map fun _ => .cleared)

def run [BlockSource σ] (c : Cache σ) :
    List Operation -> Except Corruption (Step σ (List Answer))
  | [] => .ok ⟨[], c, []⟩
  | operation :: operations => do
      let first <- c.perform operation
      let rest <- first.cache.run operations
      return ⟨first.value :: rest.value, rest.cache, first.events ++ rest.events⟩

/-- The caches that operations lead to from an empty one in front of some source. -/
inductive Reachable [BlockSource σ] (config : Config) : Cache σ -> Prop where
  | created {source : σ} {step : Step σ Unit} :
      create config source = .ok step -> Reachable config step.cache
  | performed {c : Cache σ} {operation : Operation} {step : Step σ Answer} :
      Reachable config c -> c.perform operation = .ok step -> Reachable config step.cache

end Cache
end BlockCache

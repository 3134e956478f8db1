import BlockCache.RecencyList.Operations

/-!
# Runs of a recency list

The operations of a recency list, as values, and what a sequence of them comes to. Slots
are given by the caller and need not hold a block.
-/

namespace BlockCache
namespace RecencyList

inductive Operation where
  | push (block : Block)
  | touch (slot : Slot)
  | remove (slot : Slot)
  | clear
  | victim
deriving DecidableEq, Repr

inductive Answer where
  | pushed (slot : Slot)
  | touched (credited : Bool)
  | removed (block : Option Block)
  | cleared
  | candidate (slot : Option Slot)
deriving DecidableEq, Repr

def Outcome.map {α β : Type} (f : α -> β) (outcome : Outcome α) : Outcome β :=
  { outcome with value := f outcome.value }

def perform (l : RecencyList) : Operation -> Except Corruption (Outcome Answer)
  | .push block => (l.push block).map (Outcome.map .pushed)
  | .touch slot => (l.touch slot).map (Outcome.map .touched)
  | .remove slot => (l.remove slot).map (Outcome.map .removed)
  | .clear => .ok ⟨.cleared, l.clear, []⟩
  | .victim => l.victim.map fun slot => ⟨.candidate slot, l, []⟩

def run (l : RecencyList) : List Operation -> Except Corruption (Outcome (List Answer))
  | [] => .ok ⟨[], l, []⟩
  | operation :: operations => do
      let first <- l.perform operation
      let rest <- first.list.run operations
      return ⟨first.value :: rest.value, rest.list, first.moves ++ rest.moves⟩

end RecencyList
end BlockCache

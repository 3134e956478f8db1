import BlockCache.RecencyList.Rebalance

/-!
# Operations of the recency list

Blocks enter at the front of New. A hit in New moves a block to the front again, and a
hit elsewhere credits it with a reference and moves it to the front of Middle. The
candidate for eviction is the block of Old with the fewest references.
-/

namespace BlockCache
namespace RecencyList

structure Outcome (α : Type) where
  value : α
  list : RecencyList
  moves : List Move

def settle {α : Type} (l : RecencyList) (value : α) : Except Corruption (Outcome α) := do
  let (l, moves) <- l.rebalance
  return ⟨value, l, moves⟩

/-- A slot for a new block: the one released last, or a fresh one. -/
def allocate (l : RecencyList) (block : Block) : Slot × RecencyList :=
  let entry : Entry := { block := block, segment := .new, newer := none, older := none }
  match l.free with
  | slot :: free =>
      (slot, { l with cells := l.cells.setIfInBounds slot (some entry), free := free })
  | [] => (l.cells.size, { l with cells := l.cells.push (some entry) })

def push (l : RecencyList) (block : Block) : Except Corruption (Outcome Slot) := do
  let (slot, l) := l.allocate block
  let l <- l.enterNew slot
  l.settle slot

/-- Records a hit and answers whether it was credited; a slot without a block has none. -/
def touch (l : RecencyList) (slot : Slot) : Except Corruption (Outcome Bool) := do
  match l.segment? slot with
  | none => return ⟨false, l, []⟩
  | some .new =>
      if l.newest = some slot then
        l.settle false
      else
        let l <- l.detach slot
        let l <- l.enterNew slot
        l.settle false
  | some .middle | some .old =>
      let l <- l.modify slot fun entry => { entry with block := entry.block.credit }
      let l <- l.detach slot
      let l <- l.enterMiddle slot
      l.settle true

def release (l : RecencyList) (slot : Slot) : RecencyList :=
  { l with
    cells := l.cells.setIfInBounds slot none
    free := slot :: l.free }

def remove (l : RecencyList) (slot : Slot) : Except Corruption (Outcome (Option Block)) := do
  match l.block? slot with
  | none => return ⟨none, l, []⟩
  | some block =>
      let l <- l.detach slot
      (l.release slot).settle (some block)

def removeAll (l : RecencyList) : List Slot -> Except Corruption (Outcome Nat)
  | [] => .ok ⟨0, l, []⟩
  | slot :: slots => do
      let first <- l.remove slot
      let rest <- first.list.removeAll slots
      return ⟨first.value.toList.length + rest.value, rest.list, first.moves ++ rest.moves⟩

def clear (l : RecencyList) : RecencyList :=
  empty l.maxNew l.maxOld

/--
The entries from `cursor` on, along `next` and for as long as `keep` holds. A walk has
no more steps than `limit`.
-/
def walk (l : RecencyList) (next : Entry -> Option Slot) (keep : Entry -> Bool) :
    (limit : Nat) -> (cursor : Option Slot) -> Except Corruption (List (Slot × Entry))
  | _, none => .ok []
  | 0, some _ => .error .endlessWalk
  | limit + 1, some slot => do
      let entry <- l.entry slot
      if keep entry then
        return (slot, entry) :: (<- l.walk next keep limit (next entry))
      else
        return []

def entries (l : RecencyList) : Except Corruption (List (Slot × Entry)) :=
  l.walk Entry.older (fun _ => true) l.length l.newest

def oldEntries (l : RecencyList) : Except Corruption (List (Slot × Entry)) :=
  l.walk Entry.newer (fun entry => entry.segment = .old) l.length l.oldest

/-- The entry with the fewest references, the earliest in the list among equals. -/
def leastCredited : List (Slot × Entry) -> Option (Slot × Entry)
  | [] => none
  | e :: rest =>
      match leastCredited rest with
      | none => some e
      | some best => if best.2.block.counter < e.2.block.counter then some best else some e

/--
The slot to evict next: of Old, the block with the fewest references and the least
recently used of those; the last block of the list if Old is empty.
-/
def victim (l : RecencyList) : Except Corruption (Option Slot) := do
  let old <- l.oldEntries
  match leastCredited old with
  | some (slot, _) => return some slot
  | none => return l.oldest

end RecencyList
end BlockCache

import BlockCache.Block
import BlockCache.Segment

/-!
# The recency list

Resident blocks stand in one list, most recently used first, cut into the New, Middle
and Old segments. Every block keeps one numbered slot for as long as it is resident.
The slots are threaded both ways, so that a block is moved in constant time wherever it
stands, and a released slot is used again before a new one is made. A link is a field of
a neighbour, or an end of the list where there is no neighbour.

Besides the two ends, the list remembers the last block of New and the first block of
Old. An operation that would follow a link to a slot without a block, or that would need
a boundary that is not there, stops with a `Corruption`. Lists built by the operations of
this library never do.
-/

namespace BlockCache

/-- Number of a slot, from zero. -/
abbrev Slot : Type := Nat

/-- A disagreement between the parts of a recency list, or between it and its cache. -/
inductive Corruption where
  | vacantSlot (slot : Slot)
  | emptySegment (segment : Segment)
  | lostBoundary (segment : Segment)
  | endlessWalk
  | copyOutside
deriving DecidableEq, Repr

structure Entry where
  block : Block
  segment : Segment
  newer : Option Slot
  older : Option Slot
deriving DecidableEq, Repr

structure RecencyList where
  /-- One cell for each slot ever made; a released slot is empty. -/
  cells : Array (Option Entry)
  /-- Released slots, the last released first. -/
  free : List Slot
  newest : Option Slot
  oldest : Option Slot
  lastNew : Option Slot
  firstOld : Option Slot
  sizes : SegmentSizes
  maxNew : Nat
  maxOld : Nat
deriving DecidableEq, Repr

namespace RecencyList

def empty (maxNew maxOld : Nat) : RecencyList :=
  { cells := #[]
    free := []
    newest := none
    oldest := none
    lastNew := none
    firstOld := none
    sizes := {}
    maxNew := maxNew
    maxOld := maxOld }

def length (l : RecencyList) : Nat :=
  l.sizes.total

def get? (l : RecencyList) (slot : Slot) : Option Entry :=
  l.cells[slot]?.join

def block? (l : RecencyList) (slot : Slot) : Option Block :=
  (l.get? slot).map Entry.block

def segment? (l : RecencyList) (slot : Slot) : Option Segment :=
  (l.get? slot).map Entry.segment

def entry (l : RecencyList) (slot : Slot) : Except Corruption Entry :=
  match l.get? slot with
  | some entry => .ok entry
  | none => .error (.vacantSlot slot)

def modify (l : RecencyList) (slot : Slot) (f : Entry -> Entry) :
    Except Corruption RecencyList :=
  match l.get? slot with
  | some entry => .ok { l with cells := l.cells.setIfInBounds slot (some (f entry)) }
  | none => .error (.vacantSlot slot)

/-- Sets what follows `slot` towards the back, or the front of the list if there is no `slot`. -/
def setOlder (l : RecencyList) (slot : Option Slot) (link : Option Slot) :
    Except Corruption RecencyList :=
  match slot with
  | some slot => l.modify slot fun entry => { entry with older := link }
  | none => .ok { l with newest := link }

def setNewer (l : RecencyList) (slot : Option Slot) (link : Option Slot) :
    Except Corruption RecencyList :=
  match slot with
  | some slot => l.modify slot fun entry => { entry with newer := link }
  | none => .ok { l with oldest := link }

def behind (l : RecencyList) (slot : Option Slot) : Except Corruption (Option Slot) :=
  match slot with
  | some slot => Entry.older <$> l.entry slot
  | none => .ok l.newest

def insertBehind (l : RecencyList) (slot : Slot) (after : Option Slot) :
    Except Corruption RecencyList := do
  let next <- l.behind after
  let l <- l.modify slot fun entry => { entry with newer := after, older := next }
  let l <- l.setOlder after (some slot)
  l.setNewer next (some slot)

def enterNew (l : RecencyList) (slot : Slot) : Except Corruption RecencyList := do
  let l <- l.insertBehind slot none
  let l <- l.modify slot fun entry => { entry with segment := .new }
  return { l with
    sizes := l.sizes.enter .new
    lastNew := l.lastNew.or (some slot) }

def enterMiddle (l : RecencyList) (slot : Slot) : Except Corruption RecencyList := do
  let l <- l.insertBehind slot l.lastNew
  let l <- l.modify slot fun entry => { entry with segment := .middle }
  return { l with sizes := l.sizes.enter .middle }

def leave (l : RecencyList) (segment : Segment) : Except Corruption SegmentSizes :=
  match l.sizes.leave? segment with
  | some sizes => .ok sizes
  | none => .error (.emptySegment segment)

/-- Takes `slot` out of the list; its neighbours are joined and a boundary on it moves on. -/
def detach (l : RecencyList) (slot : Slot) : Except Corruption RecencyList := do
  let entry <- l.entry slot
  let l <- l.setOlder entry.newer entry.older
  let l <- l.setNewer entry.older entry.newer
  let sizes <- l.leave entry.segment
  let l <- l.modify slot fun entry => { entry with newer := none, older := none }
  return { l with
    sizes := sizes
    lastNew := if l.lastNew = some slot then entry.newer else l.lastNew
    firstOld := if l.firstOld = some slot then entry.older else l.firstOld }

end RecencyList
end BlockCache

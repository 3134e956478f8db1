import BlockCache.RecencyList.Basic

/-!
# Moving the segment boundaries

After a block has been inserted, moved or removed the segments may be too long or too
short. Rebalancing moves boundaries, never blocks: New gives what it holds beyond its
bound to Middle, Old does the same, and then Old takes blocks from the back of Middle
until it is full or Middle is empty. Each boundary passes one block at a time, and the
moves are listed in the order in which they are made.
-/

namespace BlockCache

/-- A boundary has passed the block in `slot`, which now counts as one of `target`. -/
structure Move where
  slot : Slot
  source : Segment
  target : Segment
deriving DecidableEq, Repr

namespace RecencyList

def reassign (l : RecencyList) (slot : Slot) (target : Segment) :
    Except Corruption (RecencyList × Move) := do
  let entry <- l.entry slot
  let sizes <- l.leave entry.segment
  let l <- l.modify slot fun entry => { entry with segment := target }
  return ({ l with sizes := sizes.enter target }, ⟨slot, entry.segment, target⟩)

def shrinkNew (l : RecencyList) : Except Corruption (RecencyList × Move) := do
  match l.lastNew with
  | none => .error (.lostBoundary .new)
  | some slot =>
      let entry <- l.entry slot
      reassign { l with lastNew := entry.newer } slot .middle

def shrinkOld (l : RecencyList) : Except Corruption (RecencyList × Move) := do
  match l.firstOld with
  | none => .error (.lostBoundary .old)
  | some slot =>
      let entry <- l.entry slot
      reassign { l with firstOld := entry.older } slot .middle

/-- The block right before Old, or the last block of the list if Old is empty. -/
def beforeOld (l : RecencyList) : Except Corruption (Option Slot) :=
  match l.firstOld with
  | some slot => Entry.newer <$> l.entry slot
  | none => .ok l.oldest

def growOld (l : RecencyList) : Except Corruption (RecencyList × Move) := do
  match <- l.beforeOld with
  | none => .error (.lostBoundary .middle)
  | some slot =>
      let entry <- l.entry slot
      if entry.segment = .middle then
        reassign { l with firstOld := some slot } slot .old
      else
        .error (.lostBoundary .middle)

def repeatMove (step : RecencyList -> Except Corruption (RecencyList × Move)) :
    Nat -> RecencyList -> Except Corruption (RecencyList × List Move)
  | 0, l => .ok (l, [])
  | n + 1, l => do
      let (l, move) <- step l
      let (l, moves) <- repeatMove step n l
      return (l, move :: moves)

def newExcess (l : RecencyList) : Nat :=
  l.sizes.new - l.maxNew

def oldExcess (l : RecencyList) : Nat :=
  l.sizes.old - l.maxOld

def oldRoom (l : RecencyList) : Nat :=
  min (l.maxOld - l.sizes.old) l.sizes.middle

def rebalance (l : RecencyList) : Except Corruption (RecencyList × List Move) := do
  let (l, fromNew) <- repeatMove shrinkNew l.newExcess l
  let (l, fromOld) <- repeatMove shrinkOld l.oldExcess l
  let (l, toOld) <- repeatMove growOld l.oldRoom l
  return (l, fromNew ++ fromOld ++ toOld)

end RecencyList
end BlockCache

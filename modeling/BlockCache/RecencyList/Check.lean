import BlockCache.RecencyList.Operations

/-!
# Checking a recency list

A full walk that confirms that links, order, boundaries, counts and slots agree with one
another. It is meant for tests and for diagnosis: operations keep all of this true.
-/

namespace BlockCache
namespace RecencyList

inductive Defect where
  | outOfRange (slot : Slot)
  | vacant (slot : Slot)
  | brokenBackLink (slot : Slot)
  | outOfOrder (slot : Slot) (segment reached : Segment)
  | cycle
  | staleBack
  | wrongCounts (walked recorded : SegmentSizes)
  | staleNewBoundary
  | staleOldBoundary
  | overfullSegment (sizes : SegmentSizes) (maxNew maxOld : Nat)
  | wrongOccupancy
deriving DecidableEq, Repr

def Defect.message : Defect -> String
  | .outOfRange slot => "slot " ++ toString slot ++ " out of range"
  | .vacant slot => "slot " ++ toString slot ++ " is linked but vacant"
  | .brokenBackLink slot => "slot " ++ toString slot ++ " has a broken back link"
  | .outOfOrder slot segment reached =>
      "slot " ++ toString slot ++ " in " ++ segment.name ++ " follows " ++ reached.name
  | .cycle => "cycle in recency list"
  | .staleBack => "tail does not match the last linked slot"
  | .wrongCounts walked recorded =>
      "segment counts drifted: walked " ++ walked.text ++ ", recorded " ++ recorded.text
  | .staleNewBoundary => "New boundary marker is stale"
  | .staleOldBoundary => "Old boundary marker is stale"
  | .overfullSegment sizes maxNew maxOld =>
      "segment bounds exceeded: " ++ sizes.text ++ " max_new=" ++ toString maxNew
        ++ " max_old=" ++ toString maxOld
  | .wrongOccupancy => "arena occupancy does not match the list"

/--
The entries from `cursor` on, front to back, up to the first defect of a link or of the
order of segments. There are at most `limit` of them, or there is a cycle.
-/
def survey (l : RecencyList) (limit : Nat) (newer : Option Slot) (reached : Segment)
    (cursor : Option Slot) : Except Defect (List (Slot × Entry)) :=
  match cursor with
  | none => .ok []
  | some slot =>
      match l.cells[slot]? with
      | none => .error (.outOfRange slot)
      | some none => .error (.vacant slot)
      | some (some entry) =>
          if entry.newer ≠ newer then
            .error (.brokenBackLink slot)
          else if entry.segment.rank < reached.rank then
            .error (.outOfOrder slot entry.segment reached)
          else
            match limit with
            | 0 => .error .cycle
            | limit + 1 =>
                (l.survey limit (some slot) entry.segment entry.older).map ((slot, entry) :: ·)

def slotsIn (segment : Segment) (entries : List (Slot × Entry)) : List Slot :=
  (entries.filter fun e => e.2.segment = segment).map Prod.fst

def occupied (l : RecencyList) : Nat :=
  l.cells.countP Option.isSome

def defectOf? (l : RecencyList) (entries : List (Slot × Entry)) : Option Defect :=
  let sizes := SegmentSizes.ofSegments (entries.map fun e => e.2.segment)
  if l.oldest ≠ (entries.map Prod.fst).getLast? then
    some .staleBack
  else if sizes ≠ l.sizes then
    some (.wrongCounts sizes l.sizes)
  else if l.lastNew ≠ (slotsIn .new entries).getLast? then
    some .staleNewBoundary
  else if l.firstOld ≠ (slotsIn .old entries).head? then
    some .staleOldBoundary
  else if l.maxNew < sizes.new ∨ l.maxOld < sizes.old then
    some (.overfullSegment sizes l.maxNew l.maxOld)
  else if l.occupied ≠ sizes.total ∨ l.occupied + l.free.length ≠ l.cells.size then
    some .wrongOccupancy
  else
    none

def defect? (l : RecencyList) : Option Defect :=
  match l.survey l.cells.size none .new l.newest with
  | .error defect => some defect
  | .ok entries => l.defectOf? entries

end RecencyList
end BlockCache

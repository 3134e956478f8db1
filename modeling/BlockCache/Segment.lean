/-!
# Segments of the recency list

The list is cut in three, front to back: New holds the blocks touched most recently,
Old those touched least recently, and Middle the rest.
-/

namespace BlockCache

inductive Segment where
  | new
  | middle
  | old
deriving DecidableEq, Repr, Inhabited

namespace Segment

def name : Segment -> String
  | .new => "New"
  | .middle => "Middle"
  | .old => "Old"

def all : List Segment :=
  [.new, .middle, .old]

def rank : Segment -> Nat
  | .new => 0
  | .middle => 1
  | .old => 2

end Segment

structure SegmentSizes where
  new : Nat := 0
  middle : Nat := 0
  old : Nat := 0
deriving DecidableEq, Repr, Inhabited

namespace SegmentSizes

def total (sizes : SegmentSizes) : Nat :=
  sizes.new + sizes.middle + sizes.old

def text (sizes : SegmentSizes) : String :=
  "SegmentLens \x7b new: " ++ toString sizes.new ++ ", middle: " ++ toString sizes.middle
    ++ ", old: " ++ toString sizes.old ++ " \x7d"

def enter (sizes : SegmentSizes) : Segment -> SegmentSizes
  | .new => { sizes with new := sizes.new + 1 }
  | .middle => { sizes with middle := sizes.middle + 1 }
  | .old => { sizes with old := sizes.old + 1 }

def leave? (sizes : SegmentSizes) : Segment -> Option SegmentSizes
  | .new => if sizes.new = 0 then none else some { sizes with new := sizes.new - 1 }
  | .middle => if sizes.middle = 0 then none else some { sizes with middle := sizes.middle - 1 }
  | .old => if sizes.old = 0 then none else some { sizes with old := sizes.old - 1 }

def ofSegments (segments : List Segment) : SegmentSizes :=
  segments.foldl enter {}

end SegmentSizes
end BlockCache

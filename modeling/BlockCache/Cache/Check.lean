import BlockCache.Cache.Basic
import BlockCache.RecencyList.Check

/-!
# Checking a cache

Confirms that the recency list is sound, that the bounds of the configuration hold, and
that the index names exactly the resident blocks.
-/

namespace BlockCache
namespace Cache

variable {σ : Type}

inductive Defect where
  | list (defect : RecencyList.Defect)
  | overfull (resident capacity : Nat)
  | overfullSegment (sizes : SegmentSizes)
  | emptyFile (fd : FileDescriptor)
  | vacant (key : BlockKey) (slot : Slot)
  | misplaced (key found : BlockKey)
  | wrongTotal (indexed listed : Nat)
deriving DecidableEq, Repr

def Defect.message : Defect -> String
  | .list defect => defect.message
  | .overfull resident capacity =>
      toString resident ++ " resident blocks exceed cache_size=" ++ toString capacity
  | .overfullSegment sizes => "segment bounds exceeded: " ++ sizes.text
  | .emptyFile fd => "empty index entry for fd " ++ fd.text
  | .vacant key slot => place key ++ " points at vacant slot " ++ toString slot
  | .misplaced key found => place key ++ " points at " ++ place found
  | .wrongTotal indexed listed =>
      "index holds " ++ toString indexed ++ " blocks, list holds " ++ toString listed
where
  place (key : BlockKey) : String :=
    "fd " ++ key.fd.text ++ " block " ++ key.index.text

def entryDefect? (list : RecencyList) (key : BlockKey) (slot : Slot) : Option Defect :=
  match list.block? slot with
  | none => some (.vacant key slot)
  | some block => if block.key = key then none else some (.misplaced key block.key)

def fileDefect? (list : RecencyList) (fd : FileDescriptor)
    (blocks : List (BlockIndex × Slot)) : Option Defect :=
  if blocks.isEmpty then
    some (.emptyFile fd)
  else
    blocks.findSome? fun e => entryDefect? list ⟨fd, e.1⟩ e.2

def indexed (c : Cache σ) : List (FileDescriptor × List (BlockIndex × Slot)) :=
  c.index.files.toList.map fun e => (e.1, e.2.toList)

def defect? (c : Cache σ) : Option Defect :=
  match c.list.defect? with
  | some defect => some (.list defect)
  | none =>
      let sizes := c.list.sizes
      let total := (c.indexed.flatMap Prod.snd).length
      if c.capacity < sizes.total then
        some (.overfull sizes.total c.capacity)
      else if c.config.maxNew.toNat < sizes.new ∨ c.config.maxOld.toNat < sizes.old then
        some (.overfullSegment sizes)
      else
        match c.indexed.findSome? fun e => fileDefect? c.list e.1 e.2 with
        | some defect => some defect
        | none => if total = sizes.total then none else some (.wrongTotal total sizes.total)

def check (c : Cache σ) : Except Error Unit :=
  match c.defect? with
  | some defect => .error (.invariant defect.message)
  | none => .ok ()

end Cache
end BlockCache

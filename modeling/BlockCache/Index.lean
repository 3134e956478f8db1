import BlockCache.RecencyList.Basic
import Std.Data.TreeMap

/-!
# The membership index

For every file with resident blocks, the slots of those blocks by block number. A file
without resident blocks has no entry of its own.
-/

namespace BlockCache

structure Index where
  files : Std.TreeMap FileDescriptor (Std.TreeMap BlockIndex Slot)

namespace Index

def empty : Index :=
  ⟨∅⟩

def find? (index : Index) (key : BlockKey) : Option Slot :=
  match index.files[key.fd]? with
  | some blocks => blocks[key.index]?
  | none => none

def insert (index : Index) (key : BlockKey) (slot : Slot) : Index :=
  ⟨index.files.alter key.fd fun blocks => some ((blocks.getD ∅).insert key.index slot)⟩

/-- Forgets a block, and its file along with the last block of the file. -/
def erase (index : Index) (key : BlockKey) : Index :=
  ⟨index.files.alter key.fd fun blocks =>
    (blocks.map fun blocks => blocks.erase key.index).filter fun blocks => !blocks.isEmpty⟩

def slotsOf? (index : Index) (fd : FileDescriptor) : Option (List Slot) :=
  index.files[fd]?.map Std.TreeMap.values

def eraseFile (index : Index) (fd : FileDescriptor) : Index :=
  ⟨index.files.erase fd⟩

end Index
end BlockCache

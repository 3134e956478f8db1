import BlockCache.Source.Basic
import BlockCache.Source.Contents
import Std.Data.TreeMap

/-!
# Files in memory

A source that holds whole files by descriptor, and that can be told to misbehave: a fault
makes fetches of a file, or of one of its blocks, fail or give the wrong number of bytes,
always or a given number of times.
-/

namespace BlockCache

inductive Misbehaviour where
  | fail (error : Error)
  | give (count : Nat)
deriving DecidableEq, Repr

structure Fault where
  fd : FileDescriptor
  index : Option BlockIndex
  times : Option Nat
  effect : Misbehaviour
deriving DecidableEq, Repr

namespace Fault

def applies (fault : Fault) (key : BlockKey) : Bool :=
  fault.fd = key.fd && fault.index.all (· = key.index) && fault.times ≠ some 0

def spend (fault : Fault) : Fault :=
  { fault with times := fault.times.map (· - 1) }

/-- The effect of the first fault that applies, and the faults afterwards. -/
def trigger (key : BlockKey) : List Fault -> Option Misbehaviour × List Fault
  | [] => (none, [])
  | fault :: rest =>
      if fault.applies key then
        (some fault.effect, fault.spend :: rest)
      else
        let (effect, rest) := trigger key rest
        (effect, fault :: rest)

end Fault

structure MemoryFiles where
  files : Std.TreeMap FileDescriptor Contents
  faults : List Fault

namespace MemoryFiles

def put (m : MemoryFiles) (fd : FileDescriptor) (contents : Contents) : MemoryFiles :=
  { m with files := m.files.insert fd contents }

def delete (m : MemoryFiles) (fd : FileDescriptor) : Bool × MemoryFiles :=
  (m.files.contains fd, { m with files := m.files.erase fd })

def addFault (m : MemoryFiles) (fault : Fault) : MemoryFiles :=
  { m with faults := m.faults ++ [fault] }

/-- An unknown descriptor is noticed before any fault applies. -/
def fetch (m : MemoryFiles) (fd : FileDescriptor) (index : BlockIndex) (blockSize : UInt32) :
    Fetched MemoryFiles :=
  match m.files[fd]? with
  | none => ⟨.error (.badDescriptor fd), [], m⟩
  | some contents =>
      let start := index.number * blockSize.toUInt64
      let (effect, faults) := Fault.trigger ⟨fd, index⟩ m.faults
      let answer : Except Error Bytes :=
        match effect with
        | some (.fail error) => .error error
        | some (.give count) => .ok (contents.unbounded start count)
        | none => .ok (contents.slice start blockSize.toNat)
      ⟨answer, [], { m with faults := faults }⟩

instance : BlockSource MemoryFiles where
  fetch := fetch

end MemoryFiles
end BlockCache

import BlockCache.Source.Contents
import BlockCache.Source.FileTable

/-!
# A disk

A small file system to open files on: a tree of directories and regular files below one
root. A file keeps its contents apart from its name, so a file that is opened and then
removed can still be read, and one that is written anew is seen anew through every handle.
-/

namespace BlockCache

inductive DiskNode where
  | directory
  | regular (number : Nat)
deriving DecidableEq, Repr

structure Disk where
  names : List (List String × DiskNode)
  contents : Array Contents

namespace Disk

def empty : Disk :=
  { names := [], contents := #[] }

def maxName : Nat := 255

def maxPath : Nat := 4095

def components (path : String) : List String :=
  path.splitOn "/"

/-- The path without the steps that lead nowhere or back; the root is its own parent. -/
def normalize (steps : List String) : List String :=
  steps.foldl
    (fun here step =>
      if step = "" ∨ step = "." then here
      else if step = ".." then here.dropLast
      else here ++ [step])
    []

/-- What stands at a path that has no steps back. A directory may be known by what is in it. -/
def node? (disk : Disk) (path : List String) : Option DiskNode :=
  match disk.names.lookup path with
  | some node => some node
  | none =>
      if path = [] ∨ disk.names.any fun e => path.isPrefixOf e.1 then
        some .directory
      else
        none

def resolve (disk : Disk) (here : List String) (node : DiskNode) :
    List String -> Except OsError DiskNode
  | [] => .ok node
  | step :: rest =>
      if node ≠ .directory then
        .error .notDirectory
      else if step = "" ∨ step = "." then
        disk.resolve here node rest
      else if step = ".." then
        disk.resolve here.dropLast .directory rest
      else if maxName < step.utf8ByteSize then
        .error .nameTooLong
      else
        match disk.node? (here ++ [step]) with
        | none => .error .noSuchFile
        | some node => disk.resolve (here ++ [step]) node rest

def makeDirectory (disk : Disk) (path : String) : Disk :=
  { disk with names := (normalize (components path), .directory) :: disk.names }

def put (disk : Disk) (path : String) (contents : Contents) : Disk :=
  let steps := normalize (components path)
  match disk.names.lookup steps with
  | some (.regular number) =>
      { disk with contents := disk.contents.setIfInBounds number contents }
  | _ =>
      { names := (steps, .regular disk.contents.size) :: disk.names
        contents := disk.contents.push contents }

def unlink (disk : Disk) (path : String) : Disk :=
  let steps := normalize (components path)
  { disk with names := disk.names.filter fun e => e.1 ≠ steps }

/-- Directories can be opened like files. -/
def openPath (disk : Disk) (path : String) : Except IoCause DiskNode :=
  if path.contains '\x00' then
    .error (.described "file name contained an unexpected NUL byte")
  else if maxPath < path.utf8ByteSize then
    .error (.os .nameTooLong)
  else
    (disk.resolve [] .directory (components path)).mapError .os

def maxPosition : Nat := 9223372036854775807

/--
Bytes of an opened file. A range that leaves the positions is refused for every handle,
any other only for that of a directory.
-/
def readAt (disk : Disk) (node : DiskNode) (position : UInt64) (wanted : Nat) :
    Except IoCause Bytes :=
  if maxPosition < position.toNat + wanted then
    .error (.os .invalidArgument)
  else
    match node with
    | .directory => .error (.os .isDirectory)
    | .regular number =>
        match disk.contents[number]? with
        | some contents => .ok (contents.slice position wanted)
        | none => .ok []

theorem readAt_ne_interrupted (disk : Disk) (node : DiskNode) (position : UInt64)
    (wanted : Nat) : disk.readAt node position wanted ≠ .error (.os .interrupted) := by
  unfold readAt
  split
  · simp [OsError.invalidArgument, OsError.interrupted]
  · split
    · simp [OsError.isDirectory, OsError.interrupted]
    · split <;> simp

instance : FileSystem Disk DiskNode where
  openPath disk path := (disk.openPath path, disk)
  readAt disk node position wanted := (disk.readAt node position wanted, disk)
  interruptions _ := 0
  interruptions_lt hread := absurd (congrArg Prod.fst hread) (readAt_ne_interrupted _ _ _ _)

end Disk
end BlockCache

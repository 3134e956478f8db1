import BlockCache.Source.Basic
import Std.Data.TreeMap

/-!
# Open files

A file table opens files by path and serves their blocks with positional reads. It
numbers the files it opens from zero and never uses a number again, so a descriptor
that was closed stays unknown.

The file system beneath is a parameter: it may give fewer bytes than asked for, in pieces
of any size, and may change at every call. A call may be interrupted, and is then made
again; it is answered at last, as no state allows for endless interruptions.
-/

namespace BlockCache

/-- A file system with states `φ` and handles `η` of opened files. -/
class FileSystem (φ : Type) (η : outParam Type) where
  openPath : φ -> String -> Except IoCause η × φ
  /-- Bytes at a position, at most as many as wanted; none at or past the end. -/
  readAt : φ -> η -> (position : UInt64) -> (wanted : Nat) -> Except IoCause Bytes × φ
  /-- How many interruptions may still come. -/
  interruptions : φ -> Nat
  interruptions_lt {fs later : φ} {handle : η} {position : UInt64} {wanted : Nat} :
    readAt fs handle position wanted = (.error (.os .interrupted), later) ->
      interruptions later < interruptions fs

namespace FileSystem

variable {φ η : Type}

/-- Makes a call until it is not interrupted. -/
def retryAt [FileSystem φ η] (fs : φ) (handle : η) (position : UInt64) (wanted : Nat) :
    Except IoCause Bytes × φ :=
  match _ : readAt fs handle position wanted with
  | (.error cause, later) =>
      if cause = .os .interrupted then
        retryAt later handle position wanted
      else
        (.error cause, later)
  | (.ok bytes, later) => (.ok bytes, later)
termination_by interruptions fs
decreasing_by
  next hread hcause => exact interruptions_lt (hcause ▸ hread)

/-- Reads at `position` until `wanted` bytes are there or the file ends. -/
def readFull [FileSystem φ η] (fs : φ) (handle : η) (position : UInt64) (wanted : Nat) :
    Except IoCause Bytes × φ :=
  if wanted = 0 then
    (.ok [], fs)
  else
    match retryAt fs handle position wanted with
    | (.error cause, fs) => (.error cause, fs)
    | (.ok bytes, fs) =>
        let got := bytes.take wanted
        if got = [] then
          (.ok [], fs)
        else
          let position := Word.addCapped position (UInt64.ofNat got.length)
          let (more, fs) := readFull fs handle position (wanted - got.length)
          (more.map (got ++ ·), fs)
termination_by wanted
decreasing_by
  exact Nat.sub_lt (by omega) (List.length_pos_iff.mpr (by assumption))

end FileSystem

structure FileTable (φ η : Type) where
  fs : φ
  next : FileDescriptor
  files : Std.TreeMap FileDescriptor η

namespace FileTable

variable {φ η : Type}

def empty (fs : φ) : FileTable φ η :=
  { fs := fs, next := ⟨0⟩, files := ∅ }

def size (table : FileTable φ η) : Nat :=
  table.files.size

def isEmpty (table : FileTable φ η) : Bool :=
  table.size = 0

def successor? (fd : FileDescriptor) : Option FileDescriptor :=
  if fd.number = Int32.maxValue then none else some ⟨fd.number + 1⟩

def openPath [FileSystem φ η] (table : FileTable φ η) (path : String) :
    Except Error FileDescriptor × FileTable φ η × List SourceEvent :=
  match FileSystem.openPath table.fs path with
  | (.error cause, fs) => (.error (.io cause), { table with fs := fs }, [])
  | (.ok handle, fs) =>
      let table := { table with fs := fs }
      match successor? table.next with
      | none => (.error (.rangeOverflow "file descriptor space exhausted"), table, [])
      | some next =>
          let fd := table.next
          let files := table.files.insert fd handle
          (.ok fd, { table with next := next, files := files }, [.opened fd path])

def close (table : FileTable φ η) (fd : FileDescriptor) :
    Bool × FileTable φ η × List SourceEvent :=
  let wasOpen := table.files.contains fd
  (wasOpen, { table with files := table.files.erase fd }, [.closed fd wasOpen])

def offsetError (index : BlockIndex) (blockSize : UInt32) : Error :=
  .rangeOverflow ("block offset overflow: block=" ++ index.text ++ " block_size="
    ++ toString blockSize.toNat)

/-- An unknown descriptor is noticed first, then a block that starts too far out. -/
def fetch [FileSystem φ η] (table : FileTable φ η) (fd : FileDescriptor)
    (index : BlockIndex) (blockSize : UInt32) : Fetched (FileTable φ η) :=
  match table.files[fd]? with
  | none => ⟨.error (.badDescriptor fd), [], table⟩
  | some handle =>
      match index.byteOffset? blockSize with
      | none => ⟨.error (offsetError index blockSize), [], table⟩
      | some offset =>
          let (bytes, fs) :=
            FileSystem.readFull table.fs handle offset.number blockSize.toNat
          let table := { table with fs := fs }
          match bytes with
          | .error cause => ⟨.error (.io cause), [], table⟩
          | .ok bytes => ⟨.ok bytes, [.fetched fd index bytes.length], table⟩

instance [FileSystem φ η] : BlockSource (FileTable φ η) where
  fetch := fetch

end FileTable
end BlockCache

import BlockCache.Config
import BlockCache.Json.Record
import BlockCache.Segment
import BlockCache.Stats

/-!
# JSON forms of the public types

Sizes, counts, segments and identifiers as JSON text: compact when written, with blanks
allowed anywhere between tokens when read. A segment is written as its name, and may also
be read from an object with that name and no value but `null`.
-/

namespace BlockCache
namespace Json

def readWhole {α : Type} (reader : (cs : List Char) -> Except Failure (α × Rest cs))
    (text : String) : Except Failure α := do
  let (value, rest) <- reader text.toList
  if (skipBlank rest.val).isEmpty then return value else .error .malformed

def mapRead {α β : Type} (f : α -> β)
    (reader : (cs : List Char) -> Except Failure (α × Rest cs)) (cs : List Char) :
    Except Failure (β × Rest cs) :=
  (reader cs).map fun read => (f read.1, read.2)

end Json

namespace FileDescriptor

def read (cs : List Char) : Except Json.Failure (FileDescriptor × Json.Rest cs) :=
  Json.mapRead (fun n => ⟨Int32.ofInt n⟩) (Json.readInteger .signedHalfWord) cs

def ofJson (text : String) : Except Json.Failure FileDescriptor :=
  Json.readWhole read text

def toJson (fd : FileDescriptor) : String :=
  String.ofList (Json.writeInteger fd.number.toInt)

end FileDescriptor

namespace BlockIndex

def read (cs : List Char) : Except Json.Failure (BlockIndex × Json.Rest cs) :=
  Json.mapRead (fun n => ⟨UInt64.ofNat n.toNat⟩) (Json.readInteger .word) cs

def ofJson (text : String) : Except Json.Failure BlockIndex :=
  Json.readWhole read text

def toJson (index : BlockIndex) : String :=
  String.ofList (Json.writeInteger index.number.toNat)

end BlockIndex

namespace ByteOffset

def read (cs : List Char) : Except Json.Failure (ByteOffset × Json.Rest cs) :=
  Json.mapRead (fun n => ⟨UInt64.ofNat n.toNat⟩) (Json.readInteger .word) cs

def ofJson (text : String) : Except Json.Failure ByteOffset :=
  Json.readWhole read text

def toJson (offset : ByteOffset) : String :=
  String.ofList (Json.writeInteger offset.number.toNat)

end ByteOffset

namespace Segment

def names : List String :=
  all.map name

def ofName (name : String) : Except Json.Failure Segment :=
  match all.find? fun segment => segment.name = name with
  | some segment => .ok segment
  | none => .error (.mismatch (.unknownVariant name names))

def readUnit (cs : List Char) : Except Json.Failure (Json.Rest cs) := do
  let (c, rest) <- Json.nextChar cs
  if c = 'n' then
    return rest.next (<- Json.readWord "ull".toList rest.val)
  else
    .error (Json.wrongKind "unit" (c :: rest.val))

/-- Reads the object form, whose opening bracket has been read. A key that is not a string
is no JSON at all, whatever it would be as a value. -/
def readTagged (cs : List Char) : Except Json.Failure (Segment × Json.Rest cs) := do
  let (c, rest) <- Json.nextChar cs
  if c = '"' then
    let (name, named) <- Json.readString rest.val
    let segment <- ofName (String.ofList name)
    let colon <- Json.readColon named.val
    let last <- readUnit colon.val
    let (d, closed) <- Json.nextChar last.val
    if d = '}' then
      return (segment, rest.next (named.next (colon.next (last.next closed.toRest))))
    else
      .error .malformed
  else
    .error .malformed

def read (cs : List Char) : Except Json.Failure (Segment × Json.Rest cs) := do
  let (c, rest) <- Json.nextChar cs
  if c = '{' then
    let (segment, last) <- readTagged rest.val
    return (segment, rest.next last)
  else if c = '"' then
    let (name, last) <- Json.readString rest.val
    return (<- ofName (String.ofList name), rest.next last)
  else
    .error .malformed

def ofJson (text : String) : Except Json.Failure Segment :=
  Json.readWhole read text

def toJson (segment : Segment) : String :=
  String.ofList ('"' :: segment.name.toList ++ ['"'])

end Segment

namespace Config

def shape : Json.Shape :=
  { name := "CacheConfig"
    fields := [
      ⟨"n_old_blk", .size⟩, ⟨"block_size", .halfWord⟩, ⟨"n_new_blk", .size⟩,
      ⟨"cache_size", .size⟩]
    strict := true }

def ofValues (values : List Int) : Config :=
  { maxOld := UInt64.ofNat (values.getD 0 0).toNat
    blockSize := UInt32.ofNat (values.getD 1 0).toNat
    maxNew := UInt64.ofNat (values.getD 2 0).toNat
    capacity := UInt64.ofNat (values.getD 3 0).toNat }

def values (config : Config) : List Int :=
  [config.maxOld.toNat, config.blockSize.toNat, config.maxNew.toNat, config.capacity.toNat]

def read (cs : List Char) : Except Json.Failure (Config × Json.Rest cs) :=
  Json.mapRead ofValues (Json.readRecord shape) cs

def ofJson (text : String) : Except Json.Failure Config :=
  Json.readWhole read text

def toJson (config : Config) : String :=
  String.ofList (Json.writeObject (shape.fieldNames.zip config.values))

end Config

namespace SegmentSizes

def shape : Json.Shape :=
  { name := "SegmentLens"
    fields := [⟨"new", .size⟩, ⟨"middle", .size⟩, ⟨"old", .size⟩]
    strict := false }

def ofValues (values : List Int) : SegmentSizes :=
  { new := (values.getD 0 0).toNat
    middle := (values.getD 1 0).toNat
    old := (values.getD 2 0).toNat }

def values (sizes : SegmentSizes) : List Int :=
  [sizes.new, sizes.middle, sizes.old]

def read (cs : List Char) : Except Json.Failure (SegmentSizes × Json.Rest cs) :=
  Json.mapRead ofValues (Json.readRecord shape) cs

def ofJson (text : String) : Except Json.Failure SegmentSizes :=
  Json.readWhole read text

def toJson (sizes : SegmentSizes) : String :=
  String.ofList (Json.writeObject (shape.fieldNames.zip sizes.values))

end SegmentSizes

namespace Stats

def toJson (stats : Stats) : String :=
  String.ofList (Json.writeObject [
    ("hits", stats.hits),
    ("misses", stats.misses),
    ("evictions", stats.evictions),
    ("bytes_read", stats.bytesRead),
    ("fetch_failures", stats.fetchFailures),
    ("short_reads", stats.shortReads)])

end Stats
end BlockCache

import BlockCache.Cache.Access

/-!
# Reads

A read copies bytes of a file into the caller's buffer, one piece for each block of the
range. It stops early, without an error, where the file ends. If a block cannot be had
the read fails, but blocks admitted before that stay resident and the bytes already
copied stay in the buffer.
-/

namespace BlockCache

/-- What a reader gets: a count of bytes or an error, and the buffer either way. -/
structure Reading (α : Type) where
  result : α
  buf : Bytes
deriving DecidableEq, Repr

namespace Piece

def available (piece : Piece) (data : Bytes) : Nat :=
  min piece.len (data.length - piece.start)

/-- Copies the wanted bytes of `data` to their place in `buf`, as far as `data` goes. -/
def copy (piece : Piece) (data buf : Bytes) : Except Corruption Bytes :=
  let n := piece.available data
  if n = 0 then
    .ok buf
  else if piece.dest + n <= buf.length ∧ piece.start + n <= data.length then
    .ok (buf.take piece.dest ++ (data.drop piece.start).take n ++ buf.drop (piece.dest + n))
  else
    .error .copyOutside

end Piece

namespace Cache

variable {σ : Type}

def countShort (c : Cache σ) : Cache σ :=
  { c with stats := { c.stats with shortReads := c.stats.shortReads + 1 } }

def vacantError (fd : FileDescriptor) (index : BlockIndex) (slot : Slot) : Error :=
  .invariant ("indexed slot " ++ toString slot ++ " for fd " ++ fd.text ++ " block "
    ++ index.text ++ " is vacant")

/-- Reads pieces, in order, until the file ends or a block cannot be had. -/
def readPieces [BlockSource σ] (fd : FileDescriptor) :
    List Piece -> Cache σ -> Bytes ->
      Except Corruption (Step σ (Reading (Except Error Nat)))
  | [], c, buf => .ok ⟨⟨.ok 0, buf⟩, c, []⟩
  | piece :: rest, c, buf => do
      let accessed <- c.access fd piece.index
      match accessed.value with
      | .error e => return ⟨⟨.error e, buf⟩, accessed.cache, accessed.events⟩
      | .ok none => return ⟨⟨.ok 0, buf⟩, accessed.cache.countShort, accessed.events⟩
      | .ok (some slot) =>
          match accessed.cache.list.block? slot with
          | none =>
              let e := vacantError fd piece.index slot
              return ⟨⟨.error e, buf⟩, accessed.cache, accessed.events⟩
          | some block =>
              let n := piece.available block.data
              let buf <- piece.copy block.data buf
              if n < piece.len then
                return ⟨⟨.ok n, buf⟩, accessed.cache.countShort, accessed.events⟩
              else
                let more <- readPieces fd rest accessed.cache buf
                let result := more.value.result.map fun copied => n + copied
                return ⟨⟨result, more.value.buf⟩, more.cache, accessed.events ++ more.events⟩

def read [BlockSource σ] (c : Cache σ) (fd : FileDescriptor) (offset : ByteOffset)
    (buf : Bytes) : Except Corruption (Step σ (Reading (Except Error Nat))) := do
  match Span.ofRange offset buf.length c.config.blockSize with
  | .error e => return ⟨⟨.error (.ofRange e), buf⟩, c, []⟩
  | .ok none => return ⟨⟨.ok 0, buf⟩, c, []⟩
  | .ok (some span) =>
      let step <- readPieces fd span.pieces c buf
      match step.value.result with
      | .error _ => return step
      | .ok copied =>
          let c := step.cache
          let stats := { c.stats with bytesRead := c.stats.bytesRead + copied }
          return { step with
            cache := { c with stats := stats }
            events := step.events ++ [.read fd offset buf.length copied] }

def returnCode : Except Error Nat -> Int
  | .ok n => n
  | .error e => -e.osError.number.toInt

/--
Reads `size` bytes into the front of `buf`. A size beyond the end of `buf` is refused
before anything else happens.
-/
def readRaw [BlockSource σ] (c : Cache σ) (fd : FileDescriptor) (offset : ByteOffset)
    (size : Nat) (buf : Bytes) : Except Corruption (Step σ (Reading Int)) := do
  if buf.length < size then
    let e := .invalidArgument ("size " ++ toString size ++ " exceeds buffer length "
      ++ toString buf.length)
    return ⟨⟨returnCode (.error e), buf⟩, c, []⟩
  else
    let step <- c.read fd offset (buf.take size)
    let reading := step.value
    return ⟨⟨returnCode reading.result, reading.buf ++ buf.drop size⟩, step.cache, step.events⟩

end Cache
end BlockCache

import BlockCache.Event

/-!
# Block sources

A source supplies the bytes of blocks. The cache asks it on a miss, and assumes nothing
of it: answers may fail, may have any length, and may differ from one call to the next,
because a source carries a state that every call can change.
-/

namespace BlockCache

structure Fetched (σ : Type) where
  answer : Except Error Bytes
  events : List SourceEvent
  source : σ

class BlockSource (σ : Type) where
  /--
  Asks for up to `blockSize` bytes from the start of block `index` on. Fewer bytes say
  that the file ends in the block.
  -/
  fetch : (source : σ) -> (fd : FileDescriptor) -> (index : BlockIndex) ->
    (blockSize : UInt32) -> Fetched σ

structure Call where
  key : BlockKey
  answer : Except Error Bytes

structure Recorded (σ : Type) where
  source : σ
  calls : List Call

namespace Recorded

variable {σ : Type}

def history (r : Recorded σ) : List BlockKey :=
  (r.calls.map Call.key).reverse

def forget (r : Recorded σ) : Recorded σ :=
  { r with calls := [] }

instance [BlockSource σ] : BlockSource (Recorded σ) where
  fetch r fd index blockSize :=
    let fetched := BlockSource.fetch r.source fd index blockSize
    { answer := fetched.answer
      events := fetched.events
      source := ⟨fetched.source, ⟨⟨fd, index⟩, fetched.answer⟩ :: r.calls⟩ }

end Recorded
end BlockCache

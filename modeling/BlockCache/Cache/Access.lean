import BlockCache.Cache.Basic

/-!
# Block accesses

An access finds a block in the cache or fetches it. A fetched block enters the front of
New; if the cache is full, one block is evicted first.
-/

namespace BlockCache
namespace Cache

variable {σ : Type}

def hit (c : Cache σ) (fd : FileDescriptor) (index : BlockIndex) (slot : Slot) :
    Except Corruption (Step σ Slot) := do
  let touched <- c.list.touch slot
  let cache := { c with
    list := touched.list
    stats := { c.stats with hits := c.stats.hits + 1 } }
  return ⟨slot, cache, touched.moves.map .moved ++ [.hit fd index touched.value]⟩

def evict (c : Cache σ) : Except Corruption (Step σ (Option Block)) := do
  match <- c.list.victim with
  | none => return ⟨none, c, []⟩
  | some slot =>
      let removed <- c.list.remove slot
      match removed.value with
      | none => return ⟨none, { c with list := removed.list }, removed.moves.map .moved⟩
      | some block =>
          let cache := { c with
            list := removed.list
            index := c.index.erase block.key
            stats := { c.stats with evictions := c.stats.evictions + 1 } }
          return ⟨some block, cache,
            removed.moves.map .moved ++ [.evicted block.fd block.index block.counter]⟩

def makeRoom (c : Cache σ) : Except Corruption (Step σ (Option Block)) :=
  if c.capacity <= c.length then c.evict else .ok ⟨none, c, []⟩

def adopt (c : Cache σ) (block : Block) : Except Corruption (Step σ Slot) := do
  let room <- c.makeRoom
  let c := room.cache
  let pushed <- c.list.push block
  let cache := { c with
    list := pushed.list
    index := c.index.insert block.key pushed.value }
  return ⟨pushed.value, cache, room.events ++ pushed.moves.map .moved
    ++ [.admitted block.fd block.index block.data.length cache.length]⟩

def countFailure (c : Cache σ) : Cache σ :=
  { c with stats := { c.stats with fetchFailures := c.stats.fetchFailures + 1 } }

/--
Fetches a block that is not resident. There is no slot if the source has no bytes for
it; a failing source and one that gives more than a block leave the list as it was.
-/
def miss [BlockSource σ] (c : Cache σ) (fd : FileDescriptor) (index : BlockIndex) :
    Except Corruption (Step σ (Except Error (Option Slot))) := do
  let fetched := BlockSource.fetch c.source fd index c.config.blockSize
  let c := { c with
    source := fetched.source
    stats := { c.stats with misses := c.stats.misses + 1 } }
  let reported := fetched.events.map .source
  match fetched.answer with
  | .error e => return ⟨.error e, c.countFailure, reported ++ [.fetchFailed fd index e]⟩
  | .ok data =>
      if c.config.blockSize.toNat < data.length then
        let e := .oversizedBlock fd index data.length c.config.blockSize
        return ⟨.error e, c.countFailure, reported⟩
      else if data.isEmpty then
        return ⟨.ok none, c, reported ++ [.pastEnd fd index]⟩
      else
        let adopted <- c.adopt { fd := fd, index := index, counter := 0, data := data }
        return ⟨.ok (some adopted.value), adopted.cache, reported ++ adopted.events⟩

def access [BlockSource σ] (c : Cache σ) (fd : FileDescriptor) (index : BlockIndex) :
    Except Corruption (Step σ (Except Error (Option Slot))) := do
  match c.slot? fd index with
  | some slot =>
      let hit <- c.hit fd index slot
      return ⟨.ok (some hit.value), hit.cache, hit.events⟩
  | none => c.miss fd index

end Cache
end BlockCache

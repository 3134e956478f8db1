import BlockCache.Proofs.Cache.Runs
import BlockCache.Proofs.Cache.Shelf

/-!
# Caches without slots

A plain cache keeps its blocks on a shelf. It has no slots, no links and no index, and all
that it knows of its source is what the source would answer. Its operations are functions,
and every cache does what the plain cache with the same blocks does.
-/

namespace BlockCache

/-- What a source would answer to a fetch, once other fetches have been made. -/
structure Behaviour where
  answer : (past : List BlockKey) -> (key : BlockKey) -> Except Error Bytes

namespace Behaviour

def next (b : Behaviour) (key : BlockKey) : Behaviour :=
  ⟨fun past => b.answer (key :: past)⟩

variable {σ : Type} [BlockSource σ]

def after (blockSize : UInt32) (source : σ) (past : List BlockKey) : σ :=
  past.foldl (fun source key => (BlockSource.fetch source key.fd key.index blockSize).source) source

def of (blockSize : UInt32) (source : σ) : Behaviour :=
  ⟨fun past key =>
    (BlockSource.fetch (after blockSize source past) key.fd key.index blockSize).answer⟩

theorem of_fetched (blockSize : UInt32) (source : σ) (key : BlockKey) :
    of blockSize (BlockSource.fetch source key.fd key.index blockSize).source =
      (of blockSize source).next key := rfl

end Behaviour

/-- The same operation, with another order to drop blocks in. -/
def Cache.Operation.inOrder (order : SlotOrder) : Operation -> Operation
  | .invalidate fd _ => .invalidate fd order
  | operation => operation

structure PlainCache (config : Config) where
  source : Behaviour
  stats : Stats
  shelf : Shelf

namespace PlainCache

variable {config : Config}

/-!
# Accesses
-/

def hit (p : PlainCache config) (block : Block) : PlainCache config :=
  { p with
    stats := { p.stats with hits := p.stats.hits + 1 }
    shelf := p.shelf.touch block }

def makeRoom (p : PlainCache config) : PlainCache config :=
  if p.shelf.blocks.length < config.capacity.toNat then
    p
  else
    match p.shelf.victim? config.maxOld.toNat with
    | none => p
    | some block =>
        { p with
          stats := { p.stats with evictions := p.stats.evictions + 1 }
          shelf := p.shelf.discard fun key => key = block.key }

def adopt (p : PlainCache config) (key : BlockKey) (data : Bytes) : PlainCache config :=
  { p.makeRoom with
    shelf := p.makeRoom.shelf.push config.maxNew.toNat
      { fd := key.fd, index := key.index, counter := 0, data := data } }

def asked (p : PlainCache config) (key : BlockKey) : PlainCache config :=
  { p with
    source := p.source.next key
    stats := { p.stats with misses := p.stats.misses + 1 } }

def countFailure (p : PlainCache config) : PlainCache config :=
  { p with stats := { p.stats with fetchFailures := p.stats.fetchFailures + 1 } }

def miss (p : PlainCache config) (key : BlockKey) :
    Except Error (Option Bytes) × PlainCache config :=
  match p.source.answer [] key with
  | .error e => (.error e, (p.asked key).countFailure)
  | .ok data =>
      if config.blockSize.toNat < data.length then
        (.error (.oversizedBlock key.fd key.index data.length config.blockSize),
          (p.asked key).countFailure)
      else if data.isEmpty then
        (.ok none, p.asked key)
      else
        (.ok (some data), (p.asked key).adopt key data)

def access (p : PlainCache config) (key : BlockKey) :
    Except Error (Option Bytes) × PlainCache config :=
  match p.shelf.find? key with
  | some block => (.ok (some block.data), p.hit block)
  | none => p.miss key

/-!
# Operations
-/

def countShort (p : PlainCache config) : PlainCache config :=
  { p with stats := { p.stats with shortReads := p.stats.shortReads + 1 } }

def countBytes (p : PlainCache config) (n : Nat) : PlainCache config :=
  { p with stats := { p.stats with bytesRead := p.stats.bytesRead + n } }

def readPieces (fd : FileDescriptor) : List Piece -> PlainCache config -> Bytes ->
    Reading (Except Error Nat) × PlainCache config
  | [], p, buf => (⟨.ok 0, buf⟩, p)
  | piece :: rest, p, buf =>
      match p.access ⟨fd, piece.index⟩ with
      | (.error e, p') => (⟨.error e, buf⟩, p')
      | (.ok none, p') => (⟨.ok 0, buf⟩, p'.countShort)
      | (.ok (some data), p') =>
          let patched := patch buf piece.dest (piece.wanted data)
          if piece.available data < piece.len then
            (⟨.ok (piece.available data), patched⟩, p'.countShort)
          else
            let more := readPieces fd rest p' patched
            (⟨more.1.result.map fun copied => piece.len + copied, more.1.buf⟩, more.2)

def read (p : PlainCache config) (fd : FileDescriptor) (offset : ByteOffset) (buf : Bytes) :
    Reading (Except Error Nat) × PlainCache config :=
  match Span.ofRange offset buf.length config.blockSize with
  | .error e => (⟨.error (.ofRange e), buf⟩, p)
  | .ok none => (⟨.ok 0, buf⟩, p)
  | .ok (some span) =>
      let step := readPieces fd span.pieces p buf
      match step.1.result with
      | .error _ => step
      | .ok copied => (step.1, step.2.countBytes copied)

def count (p : PlainCache config) (fd : FileDescriptor) : Nat :=
  (p.shelf.blocks.filter fun block => block.key.fd = fd).length

def invalidate (p : PlainCache config) (fd : FileDescriptor) : PlainCache config :=
  { p with shelf := p.shelf.discard fun key => key.fd = fd }

theorem invalidate_comm (p : PlainCache config) (fd fd' : FileDescriptor) :
    (p.invalidate fd).invalidate fd' = (p.invalidate fd').invalidate fd := by
  have hshelf := p.shelf.discard_comm (fun key => key.fd = fd) fun key => key.fd = fd'
  exact congrArg (PlainCache.mk p.source p.stats) hshelf

def clear (p : PlainCache config) : PlainCache config :=
  { p with shelf := .empty }

open Cache (Operation Answer returnCode)

def perform (p : PlainCache config) : Operation -> Answer × PlainCache config
  | .read fd offset buf => (p.read fd offset buf).map .reading id
  | .readRaw fd offset size buf =>
      if buf.length < size then
        (.rawReading ⟨returnCode (.error (.invalidArgument ("size " ++ toString size
          ++ " exceeds buffer length " ++ toString buf.length))), buf⟩, p)
      else
        (p.read fd offset (buf.take size)).map
          (fun reading => .rawReading ⟨returnCode reading.result, reading.buf ++ buf.drop size⟩) id
  | .invalidate fd _ => (.dropped (p.count fd), p.invalidate fd)
  | .clear => (.cleared, p.clear)

theorem perform_inOrder (p : PlainCache config) (operation : Operation) (order : SlotOrder) :
    p.perform (operation.inOrder order) = p.perform operation := by
  cases operation <;> rfl

end PlainCache

/-!
# The plain cache of a cache
-/

namespace Cache

section Plain

variable {σ : Type} [BlockSource σ] {config : Config} {c : Cache σ} {s s' : Contents config}
  {key : BlockKey}

def plain (c : Cache σ) (s : Contents config) : PlainCache config :=
  ⟨.of config.blockSize c.source, c.stats, s.shelf⟩

theorem answer_plain (hconfig : c.config = config) (s : Contents config) (key : BlockKey) :
    (c.plain s).source.answer [] key = (c.supply key).answer := by
  rw [supply, hconfig]
  rfl

theorem plain_asked (hconfig : c.config = config) (s : Contents config) (key : BlockKey) :
    (c.asked key).plain s = (c.plain s).asked key := by
  have hsource : (c.supply key).source =
      (BlockSource.fetch c.source key.fd key.index config.blockSize).source := by
    rw [supply, hconfig]
  show PlainCache.mk (.of config.blockSize (c.supply key).source) _ _ = _
  rw [hsource, Behaviour.of_fetched]
  rfl

theorem MadeRoom.plain {room : Step σ (Option Block)} (hroom : MadeRoom c s room s')
    (hkeys : s.keys.Nodup) : room.cache.plain s' = (c.plain s).makeRoom := by
  have hlength : (c.plain s).shelf.blocks.length = s.items.length := List.length_map _
  unfold PlainCache.makeRoom
  rw [hlength]
  cases hroom with
  | spare hlt => rw [if_pos hlt]
  | evicted hfull hcandidate hmem =>
      have hvictim : (c.plain s).shelf.victim? config.maxOld.toNat = some _ :=
        CutSequence.victim?_shelf hcandidate hmem
      rw [if_neg (Nat.not_lt.mpr hfull), hvictim]
      show PlainCache.mk _ _ (CutSequence.shelf _) = _
      rw [CutSequence.shelf_remove hkeys hmem]
      rfl

/-- What an access gives, with the bytes of the block in place of its slot. -/
def served (s : Contents config) : Except Error (Option Slot) -> Except Error (Option Bytes)
  | .error e => .error e
  | .ok found => .ok (found.bind fun slot => (s.block? slot).map Block.data)

theorem served_some {slot : Slot} {block : Block} (hmem : (slot, block) ∈ s.items) :
    served s (.ok (some slot)) = .ok (some block.data) := by
  simp [served, CutSequence.block?_eq_some_iff.mpr hmem]

theorem Accessed.plain {step : Step σ (Except Error (Option Slot))}
    (haccessed : Accessed c s key step s') (hkeys : s.keys.Nodup) (hconfig : c.config = config) :
    (c.plain s).access key = (served s' step.value, step.cache.plain s') := by
  have hmiss : Absent s key -> (c.plain s).access key = (c.plain s).miss key := by
    intro habsent
    have hnone : (c.plain s).shelf.find? key = none :=
      CutSequence.find?_shelf_eq_none (absent_iff.mp habsent)
    rw [PlainCache.access, hnone]
  cases haccessed with
  | hit hmem hkey =>
      rename_i slot block list moves
      have hfound : (c.plain s).shelf.find? key = some block :=
        hkey ▸ CutSequence.find?_shelf hkeys hmem
      have htouched := (CutSequence.items_touch_perm hmem).mem_iff.mpr List.mem_cons_self
      rw [PlainCache.access, hfound, served_some htouched, CutSequence.data_counted]
      show _ = (_, PlainCache.mk _ _ (CutSequence.shelf _))
      rw [CutSequence.shelf_touch hkeys hmem]
      rfl
  | failed habsent hanswer =>
      rw [hmiss habsent, PlainCache.miss, answer_plain hconfig, hanswer, <- plain_asked hconfig]
      rfl
  | oversized habsent hanswer hsize =>
      rw [hmiss habsent, PlainCache.miss, answer_plain hconfig, hanswer, <- plain_asked hconfig]
      exact if_pos hsize
  | pastEnd habsent hanswer =>
      rw [hmiss habsent, PlainCache.miss, answer_plain hconfig, hanswer, <- plain_asked hconfig]
      rfl
  | admitted habsent hanswer hstorable hroom fresh =>
      rename_i data room s₁ slot list moves
      have hempty : ¬ data.isEmpty = true := fun hnil => hstorable.1 (List.isEmpty_iff.mp hnil)
      rw [hmiss habsent, PlainCache.miss, answer_plain hconfig, hanswer, <- plain_asked hconfig]
      dsimp only
      rw [if_neg (Nat.not_lt.mpr hstorable.2), if_neg hempty, served_some List.mem_cons_self,
        PlainCache.adopt, <- hroom.plain hkeys]
      rfl

/-!
# Reads
-/

theorem ReadPieces.plain {fd : FileDescriptor} {pieces : List Piece} {buf : Bytes}
    {step : Step σ (Reading (Except Error Nat))} (h : ReadPieces fd pieces c s buf step s')
    (hkeys : s.keys.Nodup) (hconfig : c.config = config) :
    PlainCache.readPieces fd pieces (c.plain s) buf = (step.value, step.cache.plain s') := by
  induction h with
  | done => rfl
  | failed haccessed hvalue =>
      rw [PlainCache.readPieces, haccessed.plain hkeys hconfig, hvalue]
      rfl
  | pastEnd haccessed hvalue =>
      rw [PlainCache.readPieces, haccessed.plain hkeys hconfig, hvalue]
      rfl
  | short haccessed hvalue hmem hkey hshort =>
      rw [PlainCache.readPieces, haccessed.plain hkeys hconfig, hvalue, served_some hmem]
      exact if_pos hshort
  | full haccessed hvalue hmem hkey hall hmore ih =>
      have hmoreKeys := haccessed.nodup_keys hkeys
      have hmoreConfig := haccessed.config_eq.trans hconfig
      rw [PlainCache.readPieces, haccessed.plain hkeys hconfig, hvalue, served_some hmem]
      dsimp only
      rw [if_neg (Nat.not_lt.mpr (Nat.le_of_eq hall.symm)), ih hmoreKeys hmoreConfig]

theorem read_plain (hvalid : config.Valid) (h : Coherent config c s) (fd : FileDescriptor)
    (offset : ByteOffset) (buf : Bytes) :
    Completes (c.read fd offset buf) fun step =>
      exists s', (c.plain s).read fd offset buf = (step.value, step.cache.plain s') ∧
        Coherent config step.cache s' := by
  unfold read
  rw [PlainCache.read, h.config_eq]
  rcases Span.ofRange_cases hvalid.blockSize_pos offset buf.length with
    ⟨hlen, hrange⟩ | ⟨hpos, hfits, span, hrange, hoffset, hstop, hsize⟩ | ⟨hpos, hover, hrange⟩
  · rw [hrange]
    exact Completes.pure ⟨s, rfl, h⟩
  · have htiled := span.tiled_pieces
    rw [hoffset, hstop, hsize] at htiled
    rw [hrange]
    apply (readPieces_completes hvalid h fun piece hpiece => htiled.inside_length hpiece).bind
    intro step hstep
    rcases hstep with ⟨s', hpieces, h'⟩
    dsimp only
    rw [hpieces.plain h.nodup_keys h.config_eq]
    cases hresult : step.value.result with
    | error e => exact Completes.pure ⟨s', rfl, h'⟩
    | ok copied => exact Completes.pure ⟨s', rfl, h'.toAgree, h'.config_eq⟩
  · rw [hrange]
    exact Completes.pure ⟨s, rfl, h⟩

/-!
# All operations
-/

theorem Invalidated.plain {fd : FileDescriptor} {step : Step σ Nat}
    (h : Invalidated c s fd step s') :
    step.value = (c.plain s).count fd ∧ step.cache.plain s' = (c.plain s).invalidate fd := by
  have hkept : step.cache.source = c.source ∧ step.cache.stats = c.stats := by
    cases h with
    | absent _ => exact ⟨rfl, rfl⟩
    | dropped _ _ => exact ⟨rfl, rfl⟩
  have hcount := h.count_eq
  rcases h.selects with ⟨slots, hselects, rfl⟩
  constructor
  · rw [hselects.length_eq hcount, CutSequence.keys_eq_map_shelf, List.filter_map, List.length_map]
    rfl
  · show PlainCache.mk (.of config.blockSize step.cache.source) step.cache.stats _ = _
    rw [hkept.1, hkept.2, CutSequence.shelf_removeAll hselects]
    rfl

/-- Every operation does what the plain cache does, whatever order it drops blocks in. -/
theorem perform_plain (hvalid : config.Valid) (h : Coherent config c s)
    (operation : Operation) :
    Completes (c.perform operation) fun step =>
      exists s', (c.plain s).perform operation = (step.value, step.cache.plain s') ∧
        Coherent config step.cache s' := by
  cases operation with
  | read fd offset buf =>
      apply (read_plain hvalid h fd offset buf).map
      intro step hstep
      rcases hstep with ⟨s', hread, h'⟩
      refine ⟨s', ?_, h'⟩
      rw [PlainCache.perform, hread]
      rfl
  | readRaw fd offset size buf =>
      show Completes ((c.readRaw fd offset size buf).map (Step.map Answer.rawReading)) _
      rw [PlainCache.perform]
      rcases Nat.lt_or_ge buf.length size with hsize | hsize
      · rw [readRaw_of_lt hsize, if_pos hsize]
        exact Completes.ok ⟨s, rfl, h⟩
      · rw [readRaw_of_le hsize, if_neg (Nat.not_lt.mpr hsize)]
        rcases read_plain hvalid h fd offset (buf.take size) with ⟨step, hstep, s', hread, h'⟩
        rw [hstep, hread]
        exact Completes.ok ⟨s', rfl, h'⟩
  | invalidate fd order =>
      apply (invalidate_completes h fd order).map
      intro step hstep
      rcases hstep with ⟨s', hdropped, h'⟩
      rcases hdropped.plain with ⟨hcount, hplain⟩
      refine ⟨s', ?_, h'⟩
      show (Answer.dropped ((c.plain s).count fd), (c.plain s).invalidate fd) = _
      rw [<- hcount, <- hplain]
      rfl
  | clear => exact Completes.ok ⟨.empty, rfl, (clear_coherent hvalid h).2⟩

end Plain
end Cache
end BlockCache

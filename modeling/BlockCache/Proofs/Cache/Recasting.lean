import BlockCache.Proofs.Cache.Runs

/-!
# What a cache does not look at

A cache never looks at what its source keeps to itself, nor at the number of bytes that its
reads have given so far. Both can be replaced before an operation or after it, with the same
result.
-/

namespace BlockCache

variable {σ τ α : Type}

/-- `f` leads from one kind of source to another that answers and reports the same. -/
def KeepsFetches [BlockSource σ] [BlockSource τ] (f : σ -> τ) : Prop :=
  forall (source : σ) (fd : FileDescriptor) (index : BlockIndex) (blockSize : UInt32),
    BlockSource.fetch (f source) fd index blockSize =
      ⟨(BlockSource.fetch source fd index blockSize).answer,
        (BlockSource.fetch source fd index blockSize).events,
        f (BlockSource.fetch source fd index blockSize).source⟩

theorem keepsFetches_id [BlockSource σ] : KeepsFetches (id : σ -> σ) :=
  fun _ _ _ _ => rfl

namespace Cache

/-- The cache in front of what `f` makes of its source, with `n` bytes more in the statistics. -/
def recast (f : σ -> τ) (n : Nat) (c : Cache σ) : Cache τ :=
  { config := c.config
    source := f c.source
    list := c.list
    index := c.index
    stats := { c.stats with bytesRead := c.stats.bytesRead + n } }

theorem recast_recast (n m : Nat) (c : Cache σ) :
    (c.recast id n).recast id m = c.recast id (n + m) := by
  simp only [recast, id, Nat.add_assoc]

end Cache

def Step.recast (f : σ -> τ) (n : Nat) (step : Step σ α) : Step τ α :=
  ⟨step.value, step.cache.recast f n, step.events⟩

namespace Cache

section Blocks

variable (f : σ -> τ) (n : Nat) (c : Cache σ)

theorem hit_recast (fd : FileDescriptor) (index : BlockIndex) (slot : Slot) :
    (c.recast f n).hit fd index slot = (c.hit fd index slot).map (Step.recast f n) := by
  have hlist : (c.recast f n).list = c.list := rfl
  rw [hit, hit, hlist]
  cases c.list.touch slot <;> rfl

theorem evict_recast : (c.recast f n).evict = c.evict.map (Step.recast f n) := by
  have hlist : (c.recast f n).list = c.list := rfl
  rw [evict, evict, hlist]
  cases c.list.victim with
  | error e => rfl
  | ok candidate =>
      cases candidate with
      | none => rfl
      | some slot =>
          simp only [bind, Except.bind]
          cases c.list.remove slot with
          | error e => rfl
          | ok removed =>
              cases hvalue : removed.value <;> simp only [hvalue] <;> rfl

theorem makeRoom_recast : (c.recast f n).makeRoom = c.makeRoom.map (Step.recast f n) := by
  have hcapacity : (c.recast f n).capacity = c.capacity := rfl
  have hlength : (c.recast f n).length = c.length := rfl
  rw [makeRoom, makeRoom, hcapacity, hlength]
  by_cases hfull : c.capacity <= c.length
  · rw [if_pos hfull, if_pos hfull, evict_recast]
  · rw [if_neg hfull, if_neg hfull]
    rfl

theorem adopt_recast (block : Block) :
    (c.recast f n).adopt block = (c.adopt block).map (Step.recast f n) := by
  rw [adopt, adopt, makeRoom_recast]
  cases c.makeRoom with
  | error e => rfl
  | ok room =>
      simp only [bind, Except.bind, Except.map]
      have hlist : (room.recast f n).cache.list = room.cache.list := rfl
      rw [hlist]
      cases room.cache.list.push block <;> rfl

theorem invalidate_recast (fd : FileDescriptor) (order : SlotOrder) :
    (c.recast f n).invalidate fd order = (c.invalidate fd order).map (Step.recast f n) := by
  have hindex : (c.recast f n).index = c.index := rfl
  rw [invalidate, invalidate, hindex]
  cases c.index.slotsOf? fd with
  | none => rfl
  | some slots =>
      have hlist : (c.recast f n).list = c.list := rfl
      simp only [dropSlots, hlist]
      cases c.list.removeAll (order.arrange slots) <;> rfl

end Blocks

variable [BlockSource σ] [BlockSource τ] {f : σ -> τ}

theorem supply_recast (hf : KeepsFetches f) (n : Nat) (c : Cache σ) (key : BlockKey) :
    (c.recast f n).supply key =
      ⟨(c.supply key).answer, (c.supply key).events, f (c.supply key).source⟩ :=
  hf c.source key.fd key.index c.config.blockSize

theorem asked_recast (hf : KeepsFetches f) (n : Nat) (c : Cache σ) (key : BlockKey) :
    (c.recast f n).asked key = (c.asked key).recast f n := by
  rw [asked, supply_recast hf]
  rfl

theorem miss_recast (hf : KeepsFetches f) (n : Nat) (c : Cache σ) (key : BlockKey) :
    (c.recast f n).miss key.fd key.index =
      (c.miss key.fd key.index).map (Step.recast f n) := by
  have hconfig : (c.recast f n).config = c.config := rfl
  rw [miss_eq, miss_eq, asked_recast hf, supply_recast hf, hconfig]
  dsimp only
  cases (c.supply key).answer with
  | error e => rfl
  | ok data =>
      dsimp only
      by_cases hsize : c.config.blockSize.toNat < data.length
      · rw [if_pos hsize, if_pos hsize]
        rfl
      · rw [if_neg hsize, if_neg hsize]
        by_cases hempty : data.isEmpty
        · rw [if_pos hempty, if_pos hempty]
          rfl
        · rw [if_neg hempty, if_neg hempty, adopt_recast]
          cases (c.asked key).adopt _ <;> rfl

theorem access_recast (hf : KeepsFetches f) (n : Nat) (c : Cache σ) (fd : FileDescriptor)
    (index : BlockIndex) :
    (c.recast f n).access fd index = (c.access fd index).map (Step.recast f n) := by
  have hslot : (c.recast f n).slot? fd index = c.slot? fd index := rfl
  rw [access, access, hslot]
  cases c.slot? fd index with
  | none => exact miss_recast hf n c ⟨fd, index⟩
  | some slot =>
      simp only [hit_recast]
      cases c.hit fd index slot <;> rfl

theorem readPieces_recast (hf : KeepsFetches f) (n : Nat) (c : Cache σ) (fd : FileDescriptor)
    (pieces : List Piece) (buf : Bytes) :
    readPieces fd pieces (c.recast f n) buf =
      (readPieces fd pieces c buf).map (Step.recast f n) := by
  induction pieces generalizing c buf with
  | nil => rfl
  | cons piece rest ih =>
      rw [readPieces, readPieces, access_recast hf]
      cases c.access fd piece.index with
      | error e => rfl
      | ok accessed =>
          simp only [bind, Except.bind, Except.map]
          have hvalue : (accessed.recast f n).value = accessed.value := rfl
          have hcache : (accessed.recast f n).cache = accessed.cache.recast f n := rfl
          have hlist : (accessed.cache.recast f n).list = accessed.cache.list := rfl
          rw [hvalue, hcache, hlist]
          rcases accessed.value with e | _ | slot
          · rfl
          · rfl
          · dsimp only
            cases accessed.cache.list.block? slot with
            | none => rfl
            | some block =>
                dsimp only
                cases piece.copy block.data buf with
                | error e => rfl
                | ok patched =>
                    dsimp only
                    by_cases hshort : piece.available block.data < piece.len
                    · rw [if_pos hshort, if_pos hshort]
                      rfl
                    · rw [if_neg hshort, if_neg hshort, ih]
                      cases readPieces fd rest accessed.cache patched <;> rfl

theorem read_recast (hf : KeepsFetches f) (n : Nat) (c : Cache σ) (fd : FileDescriptor)
    (offset : ByteOffset) (buf : Bytes) :
    (c.recast f n).read fd offset buf = (c.read fd offset buf).map (Step.recast f n) := by
  have hconfig : (c.recast f n).config = c.config := rfl
  rw [read, read, hconfig]
  rcases Span.ofRange offset buf.length c.config.blockSize with e | _ | span
  · rfl
  · rfl
  · dsimp only
    rw [readPieces_recast hf]
    cases readPieces fd span.pieces c buf with
    | error e => rfl
    | ok step =>
        rcases step with ⟨⟨result, patched⟩, cache, events⟩
        cases result with
        | error e => rfl
        | ok copied =>
            simp only [bind, Except.bind, Except.map, pure, Except.pure, Step.recast, recast,
              Nat.add_right_comm]

end Cache
end BlockCache

import BlockCache.Proofs.Cache.Coherence
import BlockCache.Cache.Access

/-!
# What an access does

An access of a coherent cache always completes, in one of five ways, and leaves a coherent
cache behind. `Accessed` says what each of the ways does to the cache and to the sequence
of its blocks; what holds of accesses is read off from there.
-/

namespace BlockCache
namespace Cache

open CutSequence (Holding)

variable {σ : Type} {config : Config} {c : Cache σ} {s : Contents config}

theorem hit_completes (h : Coherent config c s) (key : BlockKey) (slot : Slot) :
    Completes (c.hit key.fd key.index slot) fun step =>
      exists (list : RecencyList) (moves : List Move), step = ⟨slot,
          { c with list := list, stats := { c.stats with hits := c.stats.hits + 1 } },
          moves.map .moved ++ [.hit key.fd key.index (s.touch slot).1]⟩ ∧
        Coherent config step.cache (s.touch slot).2 := by
  refine (h.represents.touch_completes slot).bind ?_
  rintro ⟨credited, list, moves⟩ ⟨hcredited, hlist⟩
  refine Completes.pure ⟨list, moves, ?_, h.touch hlist, h.config_eq⟩
  rw [<- hcredited]

/-- How room is made for one block: there is some, or the candidate is evicted. -/
inductive MadeRoom (c : Cache σ) (s : Contents config) :
    Step σ (Option Block) -> Contents config -> Prop where
  | spare : s.items.length < config.capacity.toNat -> MadeRoom c s ⟨none, c, []⟩ s
  | evicted {slot : Slot} {block : Block} {list : RecencyList} {moves : List Move} :
      config.capacity.toNat <= s.items.length -> s.zones.Candidate (some slot) ->
      (slot, block) ∈ s.items ->
      MadeRoom c s ⟨some block,
        { c with
          list := list
          index := c.index.erase block.key
          stats := { c.stats with evictions := c.stats.evictions + 1 } },
        moves.map .moved ++ [.evicted block.fd block.index block.counter]⟩ (s.remove slot)

theorem evict_completes (h : Coherent config c s) (hne : s.items ≠ []) :
    Completes c.evict fun step =>
      exists (slot : Slot) (block : Block) (list : RecencyList) (moves : List Move),
        s.zones.Candidate (some slot) ∧ (slot, block) ∈ s.items ∧
          step = ⟨some block,
            { c with
              list := list
              index := c.index.erase block.key
              stats := { c.stats with evictions := c.stats.evictions + 1 } },
            moves.map .moved ++ [.evicted block.fd block.index block.counter]⟩ ∧
          Coherent config step.cache (s.remove slot) := by
  refine (RecencyList.victim_completes h.represents.arranged).bind ?_
  rintro candidate hcandidate
  rcases hcandidate.exists_mem with hnil | ⟨slot, block, rfl, hmem⟩
  · exact absurd (s.items_zones ▸ hnil) hne
  · rw [s.items_zones] at hmem
    refine (h.represents.remove_completes slot).bind ?_
    rintro ⟨removed, list, moves⟩ ⟨hremoved, hlist⟩
    rw [CutSequence.block?_eq_some_iff.mpr hmem] at hremoved
    cases hremoved
    refine Completes.pure ⟨slot, block, list, moves, hcandidate, hmem, rfl, ?_, h.config_eq⟩
    exact h.toAgree.remove (CutSequence.mem_holdings hmem) hlist

theorem makeRoom_completes (hvalid : config.Valid) (h : Coherent config c s) :
    Completes c.makeRoom fun step =>
      exists s', MadeRoom c s step s' ∧ Coherent config step.cache s' := by
  rw [makeRoom, h.capacity_eq, h.length_eq]
  by_cases hfull : config.capacity.toNat <= s.items.length
  · rw [if_pos hfull]
    have hne : s.items ≠ [] := by
      intro hnil
      have hpos := hvalid.capacity_pos
      rw [hnil, List.length_nil] at hfull
      omega
    refine (evict_completes h hne).mono ?_
    rintro _ ⟨slot, block, list, moves, hcandidate, hmem, rfl, hcoherent⟩
    exact ⟨s.remove slot, .evicted hfull hcandidate hmem, hcoherent⟩
  · rw [if_neg hfull]
    exact Completes.ok ⟨s, .spare (Nat.lt_of_not_le hfull), h⟩

theorem MadeRoom.length_lt {room : Step σ (Option Block)} {s' : Contents config}
    (hroom : MadeRoom c s room s') (hle : s.items.length <= config.capacity.toNat) :
    s'.items.length < config.capacity.toNat := by
  cases hroom with
  | spare hlt => exact hlt
  | evicted hfull hcandidate hmem =>
      rename_i slot block list moves
      have hlength : (without slot s.items).length + 1 = s.items.length :=
        length_without s.nodup (List.mem_map_of_mem hmem)
      simp only [CutSequence.remove]
      omega

theorem MadeRoom.items_sublist {room : Step σ (Option Block)} {s' : Contents config}
    (hroom : MadeRoom c s room s') : s'.items.Sublist s.items := by
  cases hroom with
  | spare hlt => exact List.Sublist.refl _
  | evicted hfull hcandidate hmem => exact List.filter_sublist

theorem MadeRoom.kept {room : Step σ (Option Block)} {s' : Contents config}
    (hroom : MadeRoom c s room s') :
    room.cache.config = c.config ∧ room.cache.source = c.source ∧
      forall held, held ∈ s'.holdings -> held ∈ s.holdings := by
  have hsub := hroom.items_sublist.map CutSequence.holding
  cases hroom with
  | spare hlt => exact ⟨rfl, rfl, fun _ hheld => hsub.subset hheld⟩
  | evicted hfull hcandidate hmem => exact ⟨rfl, rfl, fun _ hheld => hsub.subset hheld⟩

theorem MadeRoom.absent {room : Step σ (Option Block)} {s' : Contents config} {key : BlockKey}
    (hroom : MadeRoom c s room s') (habsent : Absent s key) : Absent s' key :=
  fun held hheld => habsent held (hroom.kept.2.2 held hheld)

theorem adopt_completes (hvalid : config.Valid) (h : Coherent config c s) (block : Block)
    (habsent : Absent s block.key) (hstorable : Storable config block.data) :
    Completes (c.adopt block) fun step =>
      exists (room : Step σ (Option Block)) (s' : Contents config) (slot : Slot)
        (fresh : slot ∉ s'.slots) (list : RecencyList) (moves : List Move),
        MadeRoom c s room s' ∧ step = ⟨slot,
          { room.cache with list := list, index := room.cache.index.insert block.key slot },
          room.events ++ moves.map .moved ++
            [.admitted block.fd block.index block.data.length (s'.items.length + 1)]⟩ ∧
        Coherent config step.cache (s'.push slot block fresh) := by
  refine (makeRoom_completes hvalid h).bind ?_
  rintro room ⟨s', hroom, h'⟩
  refine (h'.represents.push_completes block).bind ?_
  rintro ⟨slot, list, moves⟩ ⟨fresh, hlist⟩
  have hagree := h'.toAgree.push (hroom.absent habsent) (hroom.length_lt h.fits.length_le)
    hstorable fresh hlist
  have hcoherent : Coherent config
      { room.cache with list := list, index := room.cache.index.insert block.key slot }
      (s'.push slot block fresh) := ⟨hagree, h'.config_eq⟩
  refine Completes.pure ⟨room, s', slot, fresh, list, moves, hroom, ?_, hcoherent⟩
  rw [hcoherent.length_eq]
  rfl

theorem Coherent.countFailure (h : Coherent config c s) : Coherent config c.countFailure s :=
  ⟨h.toAgree, h.config_eq⟩

variable [BlockSource σ]

def supply (c : Cache σ) (key : BlockKey) : Fetched σ :=
  BlockSource.fetch c.source key.fd key.index c.config.blockSize

def asked (c : Cache σ) (key : BlockKey) : Cache σ :=
  { c with
    source := (c.supply key).source
    stats := { c.stats with misses := c.stats.misses + 1 } }

/-- The ways in which an access to a block can go. -/
inductive Accessed (c : Cache σ) (s : Contents config) (key : BlockKey) :
    Step σ (Except Error (Option Slot)) -> Contents config -> Prop where
  | hit {slot : Slot} {block : Block} {list : RecencyList} {moves : List Move} :
      (slot, block) ∈ s.items -> block.key = key ->
      Accessed c s key ⟨.ok (some slot),
        { c with list := list, stats := { c.stats with hits := c.stats.hits + 1 } },
        moves.map .moved ++ [.hit key.fd key.index (s.touch slot).1]⟩ (s.touch slot).2
  | failed {e : Error} :
      Absent s key -> (c.supply key).answer = .error e ->
      Accessed c s key ⟨.error e, (c.asked key).countFailure,
        (c.supply key).events.map .source ++ [.fetchFailed key.fd key.index e]⟩ s
  | oversized {data : Bytes} :
      Absent s key -> (c.supply key).answer = .ok data ->
      config.blockSize.toNat < data.length ->
      Accessed c s key ⟨.error (.oversizedBlock key.fd key.index data.length config.blockSize),
        (c.asked key).countFailure, (c.supply key).events.map .source⟩ s
  | pastEnd :
      Absent s key -> (c.supply key).answer = .ok [] ->
      Accessed c s key ⟨.ok none, c.asked key,
        (c.supply key).events.map .source ++ [.pastEnd key.fd key.index]⟩ s
  | admitted {data : Bytes} {room : Step σ (Option Block)} {s' : Contents config} {slot : Slot}
      {list : RecencyList} {moves : List Move} :
      Absent s key -> (c.supply key).answer = .ok data -> Storable config data ->
      MadeRoom (c.asked key) s room s' -> (fresh : slot ∉ s'.slots) ->
      Accessed c s key ⟨.ok (some slot),
        { room.cache with list := list, index := room.cache.index.insert key slot },
        (c.supply key).events.map .source ++ (room.events ++ moves.map .moved ++
          [.admitted key.fd key.index data.length (s'.items.length + 1)])⟩
        (s'.push slot { fd := key.fd, index := key.index, counter := 0, data := data } fresh)

theorem Accessed.config_eq {key : BlockKey} {step : Step σ (Except Error (Option Slot))}
    {s' : Contents config} (h : Accessed c s key step s') : step.cache.config = c.config := by
  cases h with
  | hit | failed | oversized | pastEnd => rfl
  | admitted habsent hanswer hstorable hroom fresh => exact hroom.kept.1

theorem Coherent.asked (h : Coherent config c s) (key : BlockKey) :
    Coherent config (c.asked key) s :=
  ⟨h.toAgree, h.config_eq⟩

theorem miss_eq (c : Cache σ) (key : BlockKey) :
    c.miss key.fd key.index =
      match (c.supply key).answer with
      | .error e =>
          .ok ⟨.error e, (c.asked key).countFailure,
            (c.supply key).events.map .source ++ [.fetchFailed key.fd key.index e]⟩
      | .ok data =>
          if c.config.blockSize.toNat < data.length then
            .ok ⟨.error (.oversizedBlock key.fd key.index data.length c.config.blockSize),
              (c.asked key).countFailure, (c.supply key).events.map .source⟩
          else if data.isEmpty then
            .ok ⟨.ok none, c.asked key,
              (c.supply key).events.map .source ++ [.pastEnd key.fd key.index]⟩
          else do
            let adopted <- (c.asked key).adopt
              { fd := key.fd, index := key.index, counter := 0, data := data }
            return ⟨.ok (some adopted.value), adopted.cache,
              (c.supply key).events.map .source ++ adopted.events⟩ := rfl

theorem miss_completes (hvalid : config.Valid) (h : Coherent config c s) {key : BlockKey}
    (habsent : Absent s key) :
    Completes (c.miss key.fd key.index) fun step =>
      exists s', Accessed c s key step s' ∧ Coherent config step.cache s' := by
  have hasked := h.asked key
  rw [miss_eq, h.config_eq]
  cases hanswer : (c.supply key).answer with
  | error e => exact Completes.ok ⟨s, .failed habsent hanswer, hasked.countFailure⟩
  | ok data =>
      dsimp only
      by_cases hsize : config.blockSize.toNat < data.length
      · rw [if_pos hsize]
        exact Completes.ok ⟨s, .oversized habsent hanswer hsize, hasked.countFailure⟩
      · rw [if_neg hsize]
        by_cases hempty : data.isEmpty
        · rw [if_pos hempty]
          rw [List.isEmpty_iff.mp hempty] at hanswer
          exact Completes.ok ⟨s, .pastEnd habsent hanswer, hasked⟩
        · rw [if_neg hempty]
          have hstorable : Storable config data :=
            ⟨fun hnil => hempty (List.isEmpty_iff.mpr hnil), Nat.le_of_not_lt hsize⟩
          let block : Block := { fd := key.fd, index := key.index, counter := 0, data := data }
          refine (adopt_completes hvalid hasked block habsent hstorable).bind ?_
          rintro _ ⟨room, s', slot, fresh, list, moves, hroom, rfl, hcoherent⟩
          exact Completes.pure ⟨_, .admitted habsent hanswer hstorable hroom fresh, hcoherent⟩

theorem access_completes (hvalid : config.Valid) (h : Coherent config c s) (key : BlockKey) :
    Completes (c.access key.fd key.index) fun step =>
      exists s', Accessed c s key step s' ∧ Coherent config step.cache s' := by
  cases hfind : c.index.find? key with
  | none =>
      have haccess : c.access key.fd key.index = c.miss key.fd key.index := by
        simp [access, slot?, hfind]
      rw [haccess]
      exact miss_completes hvalid h (h.find?_eq_none_iff.mp hfind)
  | some slot =>
      have haccess : c.access key.fd key.index = (do
          let hit <- c.hit key.fd key.index slot
          return ⟨.ok (some hit.value), hit.cache, hit.events⟩) := by
        simp [access, slot?, hfind]
      rcases h.find?_eq_some_iff.mp hfind with ⟨block, hmem, hkey⟩
      rw [haccess]
      refine (hit_completes h key slot).bind ?_
      rintro _ ⟨list, moves, rfl, hcoherent⟩
      exact Completes.pure ⟨_, .hit hmem hkey, hcoherent⟩

end Cache
end BlockCache

import BlockCache.Proofs.Cache.Runs
import BlockCache.Source.Memory

/-!
# Segments of a full cache

Old always takes as many blocks as its bound and the blocks behind New allow, and New is
short of its bound by no more blocks than the cache is short of its capacity. So a full
cache has full segments, and it is known beforehand which segment an admission evicts from.
-/

namespace BlockCache

/-- The segment that a full cache evicts from: the last one that has room for blocks. -/
def Config.evictionSegment (config : Config) : Segment :=
  if 0 < config.maxOld.toNat then .old
  else if config.maxNew.toNat < config.capacity.toNat then .middle
  else .new

namespace Cache

variable {σ : Type} {config : Config} {s : Contents config}

theorem sizes_of_full (hvalid : config.Valid) (hfits : s.Fits config.capacity.toNat)
    (hfull : s.items.length = config.capacity.toNat) :
    s.zones.sizes = ⟨config.maxNew.toNat, config.maxMiddle, config.maxOld.toNat⟩ := by
  have hcut := hfits.cut_eq hfull
  have hreserved := hvalid.reserved_le
  have hnews := s.length_news_zones
  have holds := s.length_olds_zones
  have htotal : s.zones.news.length + (s.zones.middles.length + s.zones.olds.length) =
      s.items.length := by
    rw [<- s.items_zones]
    simp [Zones.items]
  have hmiddles : s.zones.middles.length = config.maxMiddle := by
    rw [Config.maxMiddle]
    omega
  have holdsFull : s.zones.olds.length = config.maxOld.toNat := by
    omega
  rw [Zones.sizes, hmiddles, holdsFull, hnews, hcut]

theorem candidate_mem_zone (hvalid : config.Valid) (hfits : s.Fits config.capacity.toNat)
    (hfull : config.capacity.toNat <= s.items.length) {slot : Slot} {block : Block}
    (hcandidate : s.zones.Candidate (some slot)) (hmem : (slot, block) ∈ s.items) :
    (slot, block) ∈ s.zones.zone config.evictionSegment := by
  have hsizes := sizes_of_full hvalid hfits (Nat.le_antisymm hfits.length_le hfull)
  simp only [Zones.sizes, SegmentSizes.mk.injEq, Config.maxMiddle] at hsizes
  rcases hsizes with ⟨hnews, hmiddles, holds⟩
  have hplace : forall segment, slot ∈ (s.zones.zone segment).map Prod.fst ->
      (slot, block) ∈ s.zones.zone segment := by
    intro segment hslot
    rcases List.mem_map.mp hslot with ⟨e, he, hfst⟩
    rw [<- List.inj_on_of_nodup_map s.nodup (CutSequence.mem_items_of_zone he) hmem hfst]
    exact he
  apply hplace
  rw [Config.evictionSegment]
  cases hcandidate with
  | old hsplit hnewer holder =>
      have hpos : 0 < config.maxOld.toNat := by
        rw [<- holds, hsplit, List.length_append, List.length_cons]
        omega
      rw [if_pos hpos, Zones.zone, hsplit]
      simp
  | last hnil hlast =>
      rename_i block' newer
      have hzero : ¬ 0 < config.maxOld.toNat := by
        rw [<- holds, hnil]
        simp
      have hitems : s.zones.news ++ s.zones.middles = newer ++ [(slot, block')] := by
        simpa [Zones.items, hnil] using hlast
      have hgetLast := congrArg List.getLast? hitems
      rw [List.getLast?_append, List.getLast?_concat] at hgetLast
      rw [if_neg hzero]
      by_cases hroom : config.maxNew.toNat < config.capacity.toNat
      · have hne : s.zones.middles ≠ [] := by
          rw [<- List.length_pos_iff, hmiddles]
          omega
        rw [List.getLast?_eq_some_getLast hne, Option.some_or] at hgetLast
        rw [if_pos hroom, Zones.zone]
        exact List.mem_map_of_mem (List.mem_of_getLast?
          ((List.getLast?_eq_some_getLast hne).trans hgetLast))
      · have hmiddlesNil : s.zones.middles = [] := by
          rw [<- List.length_eq_zero_iff, hmiddles]
          omega
        rw [hmiddlesNil, List.append_nil] at hitems
        rw [if_neg hroom, Zones.zone, hitems]
        simp

variable {c : Cache σ}

theorem MadeRoom.evicted_segment (hvalid : config.Valid) (h : Coherent config c s)
    {room : Step σ (Option Block)} {s' : Contents config} (hroom : MadeRoom c s room s') :
    (forall held, held ∈ s.holdings -> Absent s' held.key ->
        c.segment? held.key.fd held.key.index = some config.evictionSegment) ∧
      (forall fd index counter, .evicted fd index counter ∈ room.events ->
        c.segment? fd index = some config.evictionSegment ∧ Absent s' ⟨fd, index⟩) := by
  cases hroom with
  | spare hlt =>
      constructor
      · intro held hheld habsent
        exact absurd rfl (habsent held hheld)
      · intro fd index counter hevent
        cases hevent
  | evicted hfull hcandidate hmem =>
      rename_i slot block list moves
      have hzone := candidate_mem_zone hvalid h.fits hfull hcandidate hmem
      have hsegment : c.segment? block.fd block.index = some config.evictionSegment :=
        h.segment?_eq_some_iff.mpr ⟨slot, block, hzone, rfl⟩
      have hgone := CutSequence.mem_holdings hmem
      have habsent : Absent (s.remove slot) block.key := by
        intro held hheld hkey
        rcases CutSequence.mem_holdings_remove.mp hheld with ⟨hheld, hne⟩
        exact hne (congrArg CutSequence.Holding.slot (h.eq_of_key_eq hheld hgone hkey))
      constructor
      · intro held hheld habsent'
        by_cases hslot : held.slot = slot
        · rw [CutSequence.holding_eq_of_slot_eq hheld hgone hslot]
          exact hsegment
        · exact absurd rfl (habsent' held (CutSequence.mem_holdings_remove.mpr ⟨hheld, hslot⟩))
      · intro fd index counter hevent
        have hnames : fd = block.fd ∧ index = block.index ∧ counter = block.counter := by
          simpa using hevent
        rw [hnames.1, hnames.2.1]
        exact ⟨hsegment, habsent⟩

variable [BlockSource σ]

theorem Accessed.evicted_segment (hvalid : config.Valid) (h : Coherent config c s)
    {key : BlockKey} {step : Step σ (Except Error (Option Slot))} {s' : Contents config}
    (haccessed : Accessed c s key step s') :
    (forall held, held ∈ s.holdings -> Absent s' held.key ->
        c.segment? held.key.fd held.key.index = some config.evictionSegment) ∧
      (forall fd index counter, .evicted fd index counter ∈ step.events ->
        c.segment? fd index = some config.evictionSegment ∧ Absent s' ⟨fd, index⟩) := by
  cases haccessed with
  | hit hmem hkey =>
      rename_i slot block list moves
      constructor
      · intro held hheld habsent
        have hkept := (CutSequence.holdings_touch_perm s slot).mem_iff.mpr hheld
        exact absurd rfl (habsent held hkept)
      · intro fd index counter hevent
        simp at hevent
  | admitted hnew hanswer hstorable hroom fresh =>
      rename_i data room s₁ slot list moves
      rcases hroom.evicted_segment hvalid (h.asked key) with ⟨hvanished, hevicted⟩
      constructor
      · intro held hheld habsent
        apply hvanished held hheld
        intro other hother
        exact habsent other (List.mem_cons_of_mem _ hother)
      · intro fd index counter hevent
        have hroomEvent : .evicted fd index counter ∈ room.events := by
          simpa using hevent
        rcases hevicted fd index counter hroomEvent with ⟨hsegment, habsent⟩
        refine ⟨hsegment, ?_⟩
        intro held hheld
        rcases List.mem_cons.mp hheld with rfl | hheld
        · -- The new block was not resident, and the evicted one was.
          intro hkey
          have hkey' : key = ⟨fd, index⟩ := hkey
          have hnone : c.slot? fd index = none := h.find?_eq_none_iff.mpr (hkey' ▸ hnew)
          have hsegment' : (c.slot? fd index).bind c.list.segment? = some config.evictionSegment :=
            hsegment
          rw [hnone] at hsegment'
          cases hsegment'
        · exact habsent held hheld
  | failed | oversized | pastEnd =>
      constructor
      · intro held hheld habsent
        exact absurd rfl (habsent held hheld)
      · intro fd index counter hevent
        simp at hevent

/--
The caches that accesses and operations lead to from an empty one. In between the source may
change by itself: files are opened and closed, written and removed.
-/
inductive Visited (config : Config) : Cache σ -> Prop where
  | created {source : σ} {step : Step σ Unit} :
      create config source = .ok step -> Visited config step.cache
  | accessed {c : Cache σ} {fd : FileDescriptor} {index : BlockIndex}
      {step : Step σ (Except Error (Option Slot))} :
      Visited config c -> c.access fd index = .ok step -> Visited config step.cache
  | performed {c : Cache σ} {operation : Operation} {step : Step σ Answer} :
      Visited config c -> c.perform operation = .ok step -> Visited config step.cache
  | resourced {c : Cache σ} (source : σ) :
      Visited config c -> Visited config { c with source := source }

theorem Visited.coherent (h : Visited config c) :
    config.Valid ∧ exists s, Coherent config c s := by
  induction h with
  | created hcreate =>
      have hvalid := valid_of_create hcreate
      exact ⟨hvalid, .empty, ((create_completes hvalid _).of_eq hcreate).2⟩
  | accessed _ haccess ih =>
      rcases ih with ⟨hvalid, s, hs⟩
      rcases (access_completes hvalid hs ⟨_, _⟩).of_eq haccess with ⟨s', -, hs'⟩
      exact ⟨hvalid, s', hs'⟩
  | performed _ hperform ih =>
      rcases ih with ⟨hvalid, s, hs⟩
      rcases (perform_completes hvalid hs _).of_eq hperform with ⟨s', -, hs'⟩
      exact ⟨hvalid, s', hs'⟩
  | resourced source _ ih =>
      rcases ih with ⟨hvalid, s, hs⟩
      exact ⟨hvalid, s, hs.toAgree, hs.config_eq⟩

/--
In a visited cache Old is as long as it can be, and New lacks no more blocks than the cache
does. So the segments of a full cache are full, and whatever an access evicts or reports as
evicted was in the eviction segment.
-/
theorem segments_of_visited (h : Visited config c) :
    c.segmentSizes.new <= config.maxNew.toNat ∧ c.length <= config.capacity.toNat ∧
      c.segmentSizes.old = min config.maxOld.toNat (c.length - c.segmentSizes.new) ∧
      config.maxNew.toNat - c.segmentSizes.new <= config.capacity.toNat - c.length ∧
      (c.length = config.capacity.toNat ->
        c.segmentSizes = ⟨config.maxNew.toNat, config.maxMiddle, config.maxOld.toNat⟩) ∧
      forall fd index, Completes (c.access fd index) fun step =>
        (forall fd' index', c.isResident fd' index' = true ->
          step.cache.isResident fd' index' = false ->
          c.segment? fd' index' = some config.evictionSegment) ∧
        (forall fd' index' counter, .evicted fd' index' counter ∈ step.events ->
          c.segment? fd' index' = some config.evictionSegment ∧
            step.cache.isResident fd' index' = false) := by
  rcases h.coherent with ⟨hvalid, s, hs⟩
  have hsizes : c.segmentSizes = s.zones.sizes := hs.represents.arranged.sizes
  have hnew : s.zones.sizes.new = s.cut := s.length_news_zones
  have hold : s.zones.sizes.old = min config.maxOld.toNat (s.items.length - s.cut) :=
    s.length_olds_zones
  have hslack := hs.fits.slack
  rw [hsizes, hs.length_eq, hnew, hold]
  refine ⟨s.cut_le_maxNew, hs.fits.length_le, rfl, by omega, ?_, ?_⟩
  · exact sizes_of_full hvalid hs.fits
  · intro fd index
    refine (access_completes hvalid hs ⟨fd, index⟩).mono ?_
    rintro step ⟨s', haccessed, hs'⟩
    rcases haccessed.evicted_segment hvalid hs with ⟨hvanished, hevicted⟩
    constructor
    · intro fd' index' hresident hgone
      rcases Option.isSome_iff_exists.mp hresident with ⟨slot, hslot⟩
      rcases (hs.found ⟨fd', index'⟩ slot).mp hslot with ⟨data, hheld⟩
      exact hvanished _ hheld (hs'.isResident_eq_false_iff.mp hgone)
    · intro fd' index' counter hevent
      rcases hevicted fd' index' counter hevent with ⟨hsegment, habsent⟩
      exact ⟨hsegment, hs'.isResident_eq_false_iff.mpr habsent⟩

def eightBytes : MemoryFiles :=
  MemoryFiles.put ⟨∅, []⟩ ⟨5⟩ (.stored [1, 2, 3, 4, 5, 6, 7, 8])

theorem segments_of_visited_three_blocks :
    exists c : Cache MemoryFiles, Visited threeBlocks c ∧ c.length = threeBlocks.capacity.toNat ∧
      c.segmentSizes = ⟨1, 1, 1⟩ ∧
      Completes (c.access ⟨5⟩ ⟨3⟩) fun step =>
        step.cache.isResident ⟨5⟩ ⟨0⟩ = false ∧ c.segment? ⟨5⟩ ⟨0⟩ = some .old := by
  have hfilled : exists c : Cache MemoryFiles, Visited threeBlocks c ∧
      (c.length = threeBlocks.capacity.toNat ∧ c.isResident ⟨5⟩ ⟨0⟩ = true) ∧
      Completes (c.access ⟨5⟩ ⟨3⟩) fun step => step.cache.isResident ⟨5⟩ ⟨0⟩ = false := by
    have hcreated : create threeBlocks eightBytes = .ok _ := rfl
    refine ⟨_, @Visited.performed _ _ _ _ (.read ⟨5⟩ ⟨0⟩ [0, 0, 0, 0, 0, 0]) _
      (.created hcreated) rfl, ?_, _, rfl, ?_⟩
    · decide +kernel
    · decide +kernel
  rcases hfilled with ⟨c, hvisited, ⟨hlength, hresident⟩, step, haccess, hgone⟩
  rcases segments_of_visited hvisited with ⟨-, -, -, -, hfull, hevictions⟩
  have hevicted := (hevictions ⟨5⟩ ⟨3⟩).of_eq haccess
  exact ⟨c, hvisited, hlength, hfull hlength, step, haccess, hgone,
    hevicted.1 ⟨5⟩ ⟨0⟩ hresident hgone⟩

end Cache
end BlockCache

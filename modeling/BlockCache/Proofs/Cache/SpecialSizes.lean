import BlockCache.Proofs.Cache.Policies

/-!
# Special sizes

With special sizes of its segments a cache is one that textbooks know. If every block is in
Old, it evicts the least frequently used block; if no block is, and New has room for all or
for none, it evicts the least recently used one.
-/

namespace BlockCache

namespace Policy

/-- The least recently used key goes, which is the last one. -/
def lru : Policy BlockKey where
  key := id
  enter := id
  hit := id
  victim? := List.getLast?

/-- The key with the lowest count goes, of several the one that was accessed longest ago. -/
def lfu : Policy (BlockKey × Nat) where
  key := Prod.fst
  enter key := (key, 0)
  hit e := (e.1, min (e.2 + 1) (UInt64.size - 1))
  victim? entries := entries.reverse.find? fun e => entries.all fun other => e.2 <= other.2

end Policy

/-!
# Shelves without New, and with nothing else
-/

namespace Shelf

variable {s : Shelf} {block : Block} {maxOld : Nat}

theorem blocks_touch_of_cut_eq_zero (hcut : s.cut = 0) (block : Block) :
    (s.touch block).blocks = block.credit :: (s.discard fun key => key = block.key).blocks := by
  have hnews : s.news = [] := by
    rw [news, hcut, List.take_zero]
  unfold touch discard
  simp [hnews, hcut]

theorem blocks_touch_of_length_le_cut (hcut : s.blocks.length <= s.cut)
    (hmem : block ∈ s.blocks) :
    (s.touch block).blocks = block :: (s.discard fun key => key = block.key).blocks := by
  have hnews : s.news = s.blocks := List.take_of_length_le hcut
  unfold touch discard
  simp [hnews, hmem]

theorem oldCount_of_length_le_maxOld (hcut : s.cut = 0) (hlength : s.blocks.length <= maxOld) :
    s.oldCount maxOld = s.blocks.length := by
  rw [oldCount, hcut]
  omega

theorem residents_of_length_le_maxOld (hcut : s.cut = 0) (hlength : s.blocks.length <= maxOld) :
    s.residents maxOld = s.blocks.map fun block => (block, .old) := by
  simp [residents, news, middles, olds, oldCount_of_length_le_maxOld hcut hlength, hcut]

theorem victim?_of_maxOld_eq_zero (s : Shelf) : s.victim? 0 = s.blocks.getLast? := by
  have holds : s.olds 0 = [] := by
    rw [olds, oldCount, Nat.zero_min, Nat.sub_zero, List.drop_length]
  rw [victim?, holds]
  rfl

theorem eq_nil_of_leastReferenced {blocks : List Block} (h : leastReferenced blocks = none) :
    blocks = [] := by
  cases blocks with
  | nil => rfl
  | cons block older =>
      rw [leastReferenced] at h
      cases hrest : leastReferenced older with
      | none =>
          rw [hrest] at h
          cases h
      | some least =>
          simp only [hrest] at h
          split at h
          · cases h
          · cases h

theorem counter_le_of_split {newer older : List Block} {least : Block}
    (hnewer : forall other, other ∈ newer -> least.counter <= other.counter)
    (holder : forall other, other ∈ older -> least.counter < other.counter) :
    forall other, other ∈ newer ++ least :: older -> least.counter <= other.counter := by
  intro other hother
  rcases List.mem_append.mp hother with hmem | hmem
  · exact hnewer other hmem
  · rcases List.mem_cons.mp hmem with rfl | hmem
    · exact UInt64.le_refl _
    · exact UInt64.le_of_lt (holder other hmem)

theorem exists_of_leastReferenced {blocks : List Block} {least : Block}
    (h : leastReferenced blocks = some least) :
    exists newer older, blocks = newer ++ least :: older ∧
      (forall other, other ∈ newer -> least.counter <= other.counter) ∧
      forall other, other ∈ older -> least.counter < other.counter := by
  induction blocks generalizing least with
  | nil => cases h
  | cons block older ih =>
      rw [leastReferenced] at h
      cases hrest : leastReferenced older with
      | none =>
          rw [hrest] at h
          cases h
          rw [eq_nil_of_leastReferenced hrest]
          exact ⟨[], [], rfl, List.forall_mem_nil _, List.forall_mem_nil _⟩
      | some other =>
          rcases ih hrest with ⟨newer, behind, hsplit, hnewer, hbehind⟩
          simp only [hrest] at h
          split at h
          · rename_i hless
            cases h
            refine ⟨[], older, rfl, List.forall_mem_nil _, ?_⟩
            intro third hthird
            rw [hsplit] at hthird
            exact UInt64.lt_of_lt_of_le hless (counter_le_of_split hnewer hbehind third hthird)
          · rename_i hmore
            cases h
            refine ⟨block :: newer, behind, congrArg (block :: ·) hsplit, ?_, hbehind⟩
            exact List.forall_mem_cons.mpr ⟨UInt64.not_lt.mp hmore, hnewer⟩

theorem victim?_of_length_le_maxOld (hcut : s.cut = 0) (hlength : s.blocks.length <= maxOld) :
    s.victim? maxOld = leastReferenced s.blocks := by
  have holds : s.olds maxOld = s.blocks := by
    rw [olds, oldCount_of_length_le_maxOld hcut hlength, Nat.sub_self, List.drop_zero]
  rw [victim?, holds]
  cases hleast : leastReferenced s.blocks with
  | none =>
      rw [eq_nil_of_leastReferenced hleast]
      rfl
  | some least => rfl

end Shelf

/-!
# Least frequently used
-/

def Block.frequency (block : Block) : BlockKey × Nat :=
  (block.key, block.counter.toNat)

namespace Policy

theorem victim?_lfu (blocks : List Block) :
    lfu.victim? (blocks.map Block.frequency) =
      (Shelf.leastReferenced blocks).map Block.frequency := by
  cases hleast : Shelf.leastReferenced blocks with
  | none =>
      rw [Shelf.eq_nil_of_leastReferenced hleast]
      rfl
  | some least =>
      rcases Shelf.exists_of_leastReferenced hleast with ⟨newer, older, rfl, hnewer, holder⟩
      apply List.find?_eq_some_iff_append.mpr
      constructor
      · -- No block has fewer references than the least.
        rw [List.all_map, List.all_eq_true]
        intro other hother
        have hle := Shelf.counter_le_of_split hnewer holder other hother
        exact decide_eq_true (UInt64.le_iff_toNat_le.mp hle)
      · refine ⟨(older.map Block.frequency).reverse, (newer.map Block.frequency).reverse, ?_, ?_⟩
        · simp
        · -- The blocks behind it have more.
          intro e he
          rcases List.mem_map.mp (List.mem_reverse.mp he) with ⟨other, hother, rfl⟩
          have hmore := UInt64.lt_iff_toNat_lt.mp (holder other hother)
          have hleast : least.frequency ∈ (newer ++ least :: older).map Block.frequency :=
            List.mem_map_of_mem (List.mem_append_right _ List.mem_cons_self)
          rw [Bool.not_eq_true', List.all_eq_false]
          exact ⟨least.frequency, hleast, fun hle =>
            Nat.not_le.mpr hmore (of_decide_eq_true hle)⟩

end Policy

namespace Cache

variable {σ : Type} {config : Config} {s : Contents config}

theorem valid_of_sizes (hcapacity : config.capacity ≠ 0) (hsize : config.blockSize ≠ 0)
    (hreserved : config.maxOld.toNat + config.maxNew.toNat <= config.capacity.toNat) :
    config.Valid where
  blockSize_pos := Nat.pos_of_ne_zero fun hzero => hsize (UInt32.toNat_inj.mp hzero)
  capacity_pos := Nat.pos_of_ne_zero fun hzero => hcapacity (UInt64.toNat_inj.mp hzero)
  reserved_le := hreserved

theorem cut_shelf_eq_zero (hnew : config.maxNew = 0) (s : Contents config) : s.shelf.cut = 0 := by
  have hzero : config.maxNew.toNat = 0 := congrArg UInt64.toNat hnew
  exact Nat.le_zero.mp (hzero ▸ s.cut_le_maxNew)

theorem length_shelf_le_maxOld (hold : config.maxOld = config.capacity)
    (hfits : s.Fits config.capacity.toNat) : s.shelf.blocks.length <= config.maxOld.toNat := by
  have hsame : config.maxOld.toNat = config.capacity.toNat := congrArg UInt64.toNat hold
  rw [CutSequence.shelf, List.length_map]
  exact Nat.le_trans hfits.length_le (Nat.le_of_eq hsame.symm)

theorem follows_lfu (hnew : config.maxNew = 0) (hold : config.maxOld = config.capacity) :
    Follows config .lfu Block.frequency where
  key_view block := rfl
  view_new key data := rfl
  touch s block hfits hmem := by
    have hcredit : block.credit.frequency = Policy.lfu.hit block.frequency :=
      Prod.ext block.key_credit block.toNat_counter_credit
    rw [Shelf.blocks_touch_of_cut_eq_zero (cut_shelf_eq_zero hnew s), List.map_cons, hcredit]
  victim s hfits := by
    have hlength := length_shelf_le_maxOld hold hfits
    rw [Policy.victim?_lfu, Shelf.victim?_of_length_le_maxOld (cut_shelf_eq_zero hnew s) hlength]

/--
If all blocks are in Old, the cache is one that evicts the least frequently used block, and
of several the least recently used: every run of accesses and operations takes both through
the same keys, in the same order and with the same counts. If the run is one of accesses and
drops alone, these are what the reference cache does as well.
-/
theorem mirrors_leastFrequentlyUsed [BlockSource σ] (hcapacity : config.capacity ≠ 0)
    (hsize : config.blockSize ≠ 0) (hnew : config.maxNew = 0)
    (hold : config.maxOld = config.capacity) (source : σ) (tasks : List Task) :
    Completes (create config source) fun created =>
      Completes (created.cache.carryOut tasks) fun ran =>
        Mirrors .lfu Block.frequency (.run .lfu config.capacity.toNat config.blockSize source
            (ran.1.map Moment.deed)) ran.1 ran.2 ∧
          (forall deeds, tasks.map Task.deed? = deeds.map some -> ran.1.map Moment.deed = deeds) ∧
          Completes ran.2.residents fun residents => forall r, r ∈ residents -> r.2 = .old := by
  have hvalid : config.Valid := valid_of_sizes hcapacity hsize (by simp [hnew, hold])
  apply ((follows_lfu hnew hold).carryOut_completes hvalid source tasks).mono
  intro created hcreated
  apply hcreated.mono
  intro ran hran
  rcases hran with ⟨hmirrors, hdeeds, s, hs⟩
  refine ⟨hmirrors, hdeeds, ?_⟩
  rw [hs.residents_eq, Shelf.residents_of_length_le_maxOld (cut_shelf_eq_zero hnew s)
    (length_shelf_le_maxOld hold hs.fits)]
  apply Completes.ok
  intro r hr
  rcases List.mem_map.mp hr with ⟨block, -, rfl⟩
  rfl

def twoOld : Config :=
  { maxOld := 2, blockSize := 2, maxNew := 0, capacity := 2 }

def threeInTwo : List Task :=
  [.perform (.read ⟨5⟩ ⟨0⟩ [0, 0, 0]), .access ⟨⟨5⟩, ⟨0⟩⟩, .access ⟨⟨5⟩, ⟨2⟩⟩, .access ⟨⟨5⟩, ⟨1⟩⟩]

theorem mirrors_leastFrequentlyUsed_three_in_two :
    Completes (create twoOld eightBytes) fun created =>
      Completes (created.cache.carryOut threeInTwo) fun ran =>
        Mirrors .lfu Block.frequency (.run .lfu 2 2 eightBytes (ran.1.map Moment.deed)) ran.1
            ran.2 ∧
          (ReferenceCache.run .lfu 2 2 eightBytes (ran.1.map Moment.deed)).entries =
            [(⟨⟨5⟩, ⟨1⟩⟩, 0), (⟨⟨5⟩, ⟨0⟩⟩, 1)] ∧
          ran.1.flatMap Moment.evicted = [⟨⟨5⟩, ⟨1⟩⟩, ⟨⟨5⟩, ⟨2⟩⟩] := by
  have hrun : Completes (create twoOld eightBytes) fun created =>
      Completes (created.cache.carryOut threeInTwo) fun ran =>
        (ReferenceCache.run .lfu 2 2 eightBytes (ran.1.map Moment.deed)).entries =
            [(⟨⟨5⟩, ⟨1⟩⟩, 0), (⟨⟨5⟩, ⟨0⟩⟩, 1)] ∧
          ran.1.flatMap Moment.evicted = [⟨⟨5⟩, ⟨1⟩⟩, ⟨⟨5⟩, ⟨2⟩⟩] := by
    refine ⟨_, rfl, _, rfl, ?_⟩
    decide +kernel
  rcases hrun with ⟨created, hcreate, ran, hran, hentries, hevicted⟩
  have hmirrors := @mirrors_leastFrequentlyUsed _ twoOld _ (by decide) (by decide) rfl rfl
    eightBytes threeInTwo
  exact ⟨created, hcreate, ran, hran, ((hmirrors.of_eq hcreate).of_eq hran).1, hentries, hevicted⟩

/-!
# Least recently used
-/

theorem length_shelf_le_cut (hnew : config.maxNew = config.capacity)
    (hfits : s.Fits config.capacity.toNat) : s.shelf.blocks.length <= s.shelf.cut := by
  have hsame : config.maxNew.toNat = config.capacity.toNat := congrArg UInt64.toNat hnew
  have hslack := hfits.slack
  rw [CutSequence.shelf, List.length_map]
  dsimp only
  omega

theorem follows_lru (hnew : config.maxNew = 0 ∨ config.maxNew = config.capacity)
    (hold : config.maxOld = 0) : Follows config .lru Block.key where
  key_view block := rfl
  view_new key data := rfl
  touch s block hfits hmem := by
    rcases hnew with hnone | hall
    · rw [Shelf.blocks_touch_of_cut_eq_zero (cut_shelf_eq_zero hnone s), List.map_cons,
        block.key_credit]
      rfl
    · rw [Shelf.blocks_touch_of_length_le_cut (length_shelf_le_cut hall hfits) hmem]
      rfl
  victim s hfits := by
    have hzero : config.maxOld.toNat = 0 := congrArg UInt64.toNat hold
    have hvictim := s.shelf.victim?_of_maxOld_eq_zero
    rw [<- hzero] at hvictim
    rw [hvictim]
    exact List.getLast?_map

/--
If no block is in Old, and New has room for none or for all, the cache is one that evicts the
least recently used block: every run of accesses and operations takes both through the same
keys in the same order.
-/
theorem mirrors_leastRecentlyUsed [BlockSource σ] (hcapacity : config.capacity ≠ 0)
    (hsize : config.blockSize ≠ 0)
    (hnew : config.maxNew = 0 ∨ config.maxNew = config.capacity) (hold : config.maxOld = 0)
    (source : σ) (tasks : List Task) :
    Completes (create config source) fun created =>
      Completes (created.cache.carryOut tasks) fun ran =>
        Mirrors .lru Block.key (.run .lru config.capacity.toNat config.blockSize source
            (ran.1.map Moment.deed)) ran.1 ran.2 ∧
          forall deeds, tasks.map Task.deed? = deeds.map some -> ran.1.map Moment.deed = deeds := by
  have hreserved : config.maxOld.toNat + config.maxNew.toNat <= config.capacity.toNat := by
    rcases hnew with hnone | hall
    · simp [hnone, hold]
    · simp [hall, hold]
  have hvalid := valid_of_sizes hcapacity hsize hreserved
  apply ((follows_lru hnew hold).carryOut_completes hvalid source tasks).mono
  intro created hcreated
  exact hcreated.mono fun ran hran => ⟨hran.1, hran.2.1⟩

def noneOld (maxNew : UInt64) : Config :=
  { maxOld := 0, blockSize := 2, maxNew := maxNew, capacity := 2 }

theorem mirrors_leastRecentlyUsed_three_in_two :
    (Completes (create (noneOld 0) eightBytes) fun created =>
      Completes (created.cache.carryOut threeInTwo) fun ran =>
        Mirrors .lru Block.key (.run .lru 2 2 eightBytes (ran.1.map Moment.deed)) ran.1 ran.2 ∧
          ran.2.segmentSizes = ⟨0, 2, 0⟩ ∧
          ran.1.flatMap Moment.evicted = [⟨⟨5⟩, ⟨1⟩⟩, ⟨⟨5⟩, ⟨0⟩⟩]) ∧
      Completes (create (noneOld 2) eightBytes) fun created =>
        Completes (created.cache.carryOut threeInTwo) fun ran =>
          Mirrors .lru Block.key (.run .lru 2 2 eightBytes (ran.1.map Moment.deed)) ran.1 ran.2 ∧
            ran.2.segmentSizes = ⟨2, 0, 0⟩ ∧
            ran.1.flatMap Moment.evicted = [⟨⟨5⟩, ⟨1⟩⟩, ⟨⟨5⟩, ⟨0⟩⟩] := by
  have hmiddle : Completes (create (noneOld 0) eightBytes) fun created =>
      Completes (created.cache.carryOut threeInTwo) fun ran =>
        ran.2.segmentSizes = ⟨0, 2, 0⟩ ∧
          ran.1.flatMap Moment.evicted = [⟨⟨5⟩, ⟨1⟩⟩, ⟨⟨5⟩, ⟨0⟩⟩] := by
    refine ⟨_, rfl, _, rfl, ?_⟩
    decide +kernel
  have hnew : Completes (create (noneOld 2) eightBytes) fun created =>
      Completes (created.cache.carryOut threeInTwo) fun ran =>
        ran.2.segmentSizes = ⟨2, 0, 0⟩ ∧
          ran.1.flatMap Moment.evicted = [⟨⟨5⟩, ⟨1⟩⟩, ⟨⟨5⟩, ⟨0⟩⟩] := by
    refine ⟨_, rfl, _, rfl, ?_⟩
    decide +kernel
  constructor
  · rcases hmiddle with ⟨created, hcreate, ran, hran, hfacts⟩
    have hmirrors := @mirrors_leastRecentlyUsed _ (noneOld 0) _ (by decide) (by decide)
      (.inl rfl) rfl eightBytes threeInTwo
    exact ⟨created, hcreate, ran, hran, ((hmirrors.of_eq hcreate).of_eq hran).1, hfacts⟩
  · rcases hnew with ⟨created, hcreate, ran, hran, hfacts⟩
    have hmirrors := @mirrors_leastRecentlyUsed _ (noneOld 2) _ (by decide) (by decide)
      (.inr rfl) rfl eightBytes threeInTwo
    exact ⟨created, hcreate, ran, hran, ((hmirrors.of_eq hcreate).of_eq hran).1, hfacts⟩

end Cache
end BlockCache

import BlockCache.Proofs.Cache.Counters
import Mathlib.Data.List.Dedup
import Mathlib.Data.List.Perm.Subperm

/-!
# Working sets

A block at the front of New is safe for a while. Whatever is read, it goes back by one place
only for a block that was not before it yet, and no block is evicted from New as long as the
cache has room for others. So it takes accesses of as many different blocks as New has places
to push it out.
-/

namespace BlockCache

def Deed.key? : Deed -> Option BlockKey
  | .access key => some key
  | .invalidate _ => none
  | .clear => none

namespace Cache

variable {σ : Type}

/-- The blocks other than `key` that are accessed, once for each access. -/
def others (key : BlockKey) (log : List (Moment σ)) : List BlockKey :=
  (log.filterMap fun m => m.deed.key?).filter fun other => other ≠ key

theorem others_append (key : BlockKey) (log log' : List (Moment σ)) :
    others key (log ++ log') = others key log ++ others key log' := by
  rw [others, List.filterMap_append, List.filter_append]
  rfl

theorem mem_others_singleton {key other : BlockKey} {m : Moment σ}
    (hdeed : m.deed = .access other) (hne : other ≠ key) : other ∈ others key [m] := by
  simp [others, Deed.key?, hdeed, hne]

theorem length_le_dedup {keys seen : List BlockKey} (h : keys.Nodup) (hsub : keys ⊆ seen) :
    keys.length <= seen.dedup.length :=
  (h.subperm fun _ hkey => List.mem_dedup.mpr (hsub hkey)).length_le

/-- The block is in the list without references, and the blocks before it are among `seen`. -/
def Sheltered (key : BlockKey) (seen : List BlockKey) (news : List Item) : Prop :=
  exists (ahead : List Item) (slot : Slot) (block : Block) (behind : List Item),
    news = ahead ++ (slot, block) :: behind ∧ block.key = key ∧ block.counter = 0 ∧
      forall e, e ∈ ahead -> e.2.key ∈ seen

variable {key : BlockKey} {seen seen' : List BlockKey} {news : List Item} {e : Item}

theorem Sheltered.mono (h : Sheltered key seen news) (hseen : seen ⊆ seen') :
    Sheltered key seen' news := by
  rcases h with ⟨ahead, slot, block, behind, hnews, hkey, hcounter, hahead⟩
  exact ⟨ahead, slot, block, behind, hnews, hkey, hcounter, fun e he => hseen (hahead e he)⟩

theorem Sheltered.exists_mem (h : Sheltered key seen news) :
    exists e, e ∈ news ∧ e.2.key = key ∧ e.2.counter = 0 := by
  rcases h with ⟨ahead, slot, block, behind, rfl, hkey, hcounter, -⟩
  exact ⟨(slot, block), List.mem_append_right _ List.mem_cons_self, hkey, hcounter⟩

theorem Sheltered.filter (h : Sheltered key seen news) {p : Item -> Bool}
    (hkeep : forall e, e ∈ news -> e.2.key = key -> p e = true) :
    Sheltered key seen (news.filter p) := by
  rcases h with ⟨ahead, slot, block, behind, rfl, hkey, hcounter, hahead⟩
  refine ⟨ahead.filter p, slot, block, behind.filter p, ?_, hkey, hcounter, ?_⟩
  · have hblock := hkeep (slot, block) (List.mem_append_right _ List.mem_cons_self) hkey
    rw [List.filter_append, List.filter_cons_of_pos hblock]
  · intro e he
    exact hahead e (List.mem_filter.mp he).1

theorem sheltered_cons (seen : List BlockKey) (news : List Item) (hkey : e.2.key = key)
    (hcounter : e.2.counter = 0) : Sheltered key seen (e :: news) :=
  ⟨[], e.1, e.2, news, rfl, hkey, hcounter, fun _ he => absurd he List.not_mem_nil⟩

theorem Sheltered.cons (h : Sheltered key seen news) (he : e.2.key ∈ seen) :
    Sheltered key seen (e :: news) := by
  rcases h with ⟨ahead, slot, block, behind, rfl, hkey, hcounter, hahead⟩
  refine ⟨e :: ahead, slot, block, behind, rfl, hkey, hcounter, ?_⟩
  intro e' he'
  rcases List.mem_cons.mp he' with rfl | he'
  · exact he
  · exact hahead e' he'

theorem Sheltered.take (h : Sheltered key seen news) (hnodup : (news.map fun e => e.2.key).Nodup)
    {n : Nat} (hcount : seen.dedup.length < n) : Sheltered key seen (news.take n) := by
  rcases h with ⟨ahead, slot, block, behind, rfl, hkey, hcounter, hahead⟩
  have hlength : ahead.length < n := by
    have hkeys : (ahead.map fun e => e.2.key).Nodup :=
      hnodup.sublist ((List.sublist_append_left _ _).map _)
    have hsub : (ahead.map fun e => e.2.key) ⊆ seen := by
      intro other hother
      rcases List.mem_map.mp hother with ⟨e, he, rfl⟩
      exact hahead e he
    have hle := length_le_dedup hkeys hsub
    rw [List.length_map] at hle
    exact Nat.lt_of_le_of_lt hle hcount
  rcases Nat.exists_eq_add_of_lt hlength with ⟨more, rfl⟩
  refine ⟨ahead, slot, block, behind.take more, ?_, hkey, hcounter, hahead⟩
  rw [Nat.add_assoc, List.take_length_add_append, List.take_succ_cons]

/-!
# Nothing is evicted from New
-/

variable {config : Config} {c c₁ : Cache σ} {s s' : Contents config}

theorem evictionSegment_ne_new (hroom : config.maxNew.toNat < config.capacity.toNat) :
    config.evictionSegment ≠ .new := by
  unfold Config.evictionSegment
  rw [if_pos hroom]
  split <;> exact nofun

theorem MadeRoom.sheltered (hvalid : config.Valid)
    (hplaces : config.maxNew.toNat < config.capacity.toNat) (h : Coherent config c s)
    {room : Step σ (Option Block)} (hroom : MadeRoom c s room s')
    (hnews : Sheltered key seen s.zones.news) : Sheltered key seen s'.zones.news := by
  cases hroom with
  | spare hlt => exact hnews
  | evicted hfull hcandidate hmem =>
      rename_i slot block list moves
      have hsegment : c.segment? block.fd block.index = some config.evictionSegment :=
        h.segment?_eq_some_iff.mpr
          ⟨slot, block, candidate_mem_zone hvalid h.fits hfull hcandidate hmem, rfl⟩
      rw [CutSequence.news_remove]
      apply hnews.filter
      intro e he hkey
      apply decide_eq_true
      intro hslot
      have hfront : e.1 ∈ s.newSlots := List.mem_map_of_mem he
      rw [hslot] at hfront
      have hnew := hsegment.symm.trans (h.segment?_of_new hmem hfront)
      exact evictionSegment_ne_new hplaces (Option.some.inj hnew)

theorem Coherent.sheltered_touch (h : Coherent config c s) {slot : Slot} {block : Block}
    (hmem : (slot, block) ∈ s.items) (hseen : block.key ≠ key -> block.key ∈ seen)
    (hnews : Sheltered key seen s.zones.news) :
    Sheltered key seen (s.touch slot).2.zones.news := by
  have hblock := CutSequence.block?_eq_some_iff.mpr hmem
  by_cases hnew : slot ∈ s.newSlots
  · rw [CutSequence.touch_of_new hblock hnew, CutSequence.news_toFront hnew]
    by_cases hkey : block.key = key
    · rcases hnews.exists_mem with ⟨e, he, hekey, hcounter⟩
      have hsame := h.eq_of_keys_eq (List.mem_of_mem_take he) hmem (hekey.trans hkey.symm)
      cases hsame
      exact sheltered_cons seen _ hkey hcounter
    · refine (hnews.filter ?_).cons (hseen hkey)
      intro e he hekey
      apply decide_eq_true
      intro hslot
      have hsame := List.inj_on_of_nodup_map s.nodup (List.mem_of_mem_take he) hmem hslot
      cases hsame
      exact hkey hekey
  · rw [CutSequence.touch_of_not_new hblock hnew, CutSequence.news_toCut hnew]
    exact hnews

def InNew (c : Cache σ) (key : BlockKey) : Prop :=
  c.segment? key.fd key.index = some .new ∧ c.counter? key.fd key.index = some 0

theorem Sheltered.inNew (h : Coherent config c s) (hnews : Sheltered key seen s.zones.news) :
    InNew c key := by
  rcases hnews.exists_mem with ⟨e, he, hkey, hcounter⟩
  constructor
  · exact h.segment?_eq_some_iff.mpr ⟨e.1, e.2, he, hkey⟩
  · exact h.counter?_eq_some_iff.mpr ⟨e.1, e.2, List.mem_of_mem_take he, hkey, hcounter⟩

theorem Sheltered.fetches_eq_false {m : Moment σ} (h : Coherent config m.before s)
    (hnews : Sheltered key seen s.zones.news) : m.fetches key = false := by
  rcases hnews.exists_mem with ⟨e, he, hkey, -⟩
  have hresident : m.before.isResident key.fd key.index = true :=
    h.isResident_iff.mpr ⟨e.1, e.2, List.mem_of_mem_take he, hkey⟩
  simp [Moment.fetches, hresident]

/-!
# Sheltered blocks along a journal
-/

variable [BlockSource σ] {m : Moment σ} {log : List (Moment σ)}

theorem Passes.sheltered (hvalid : config.Valid)
    (hplaces : config.maxNew.toNat < config.capacity.toNat) (h : Coherent config m.before s)
    (h' : Coherent config m.after s') (hpasses : Passes m s s')
    (hdeed : m.deed ≠ .clear ∧ m.deed ≠ .invalidate key.fd)
    (hseen : forall other, m.deed = .access other -> other ≠ key -> other ∈ seen)
    (hcount : seen.dedup.length < config.maxNew.toNat)
    (hnews : Sheltered key seen s.zones.news) : Sheltered key seen s'.zones.news := by
  cases hpasses with
  | accessed haccessed =>
      cases haccessed with
      | hit hmem hkey =>
          cases hkey
          exact h.sheltered_touch hmem (hseen _ rfl) hnews
      | failed | oversized | pastEnd => exact hnews
      | admitted habsent hanswer hstorable hroom fresh =>
          rename_i c other data room s₁ slot list moves
          rcases hnews.exists_mem with ⟨e, he, hkey, -⟩
          have hne : other ≠ key := by
            rw [<- hkey]
            exact (habsent.key_ne (List.mem_of_mem_take he)).symm
          have hroomed := hroom.sheltered hvalid hplaces (h.asked other) hnews
          rw [CutSequence.news_push]
          apply Sheltered.take _ _ hcount
          · exact hroomed.cons (hseen other rfl hne)
          · exact h'.nodup_keys.sublist (((List.take_sublist _ _).cons_cons _).map _)
  | invalidated hslots =>
      rename_i c fd slots list index
      rw [CutSequence.news_removeAll]
      apply hnews.filter
      intro e he hkey
      apply decide_eq_true
      intro hslot
      have hheld := CutSequence.mem_holdings (List.mem_of_mem_take he)
      have hfd : e.2.key.fd = fd := (hslots _ hheld).mp hslot
      rw [hkey] at hfd
      exact hdeed.2 (congrArg Deed.invalidate hfd.symm)
  | cleared => exact absurd rfl hdeed.1

theorem Chronicle.sheltered (hvalid : config.Valid)
    (hplaces : config.maxNew.toNat < config.capacity.toNat) (h : Chronicle c s log c₁ s')
    (hdeeds : forall m, m ∈ log -> m.deed ≠ .clear ∧ m.deed ≠ .invalidate key.fd)
    (hcount : (others key log).dedup.length < config.maxNew.toNat)
    (hnews : Sheltered key [] s.zones.news) :
    Sheltered key (others key log) s'.zones.news ∧
      forall m, m ∈ log ->
        m.fetches key = false ∧ InNew m.before key ∧ InNew m.after key := by
  induction h with
  | refl => exact ⟨hnews, fun m hm => absurd hm List.not_mem_nil⟩
  | passed hpast hbefore hpasses hafter ih =>
      rename_i log m s₁ s₂
      have hsub : others key log ⊆ others key (log ++ [m]) := by
        rw [others_append]
        exact List.subset_append_left _ _
      have hfewer : (others key log).dedup.length < config.maxNew.toNat :=
        Nat.lt_of_le_of_lt (length_le_dedup (List.nodup_dedup _)
          (List.Subset.trans (List.dedup_subset _) hsub)) hcount
      rcases ih (fun m hm => hdeeds m (List.mem_append_left _ hm)) hfewer with ⟨hsheltered, hpasts⟩
      have hnext := hpasses.sheltered hvalid hplaces hbefore hafter
        (hdeeds m List.mem_concat_self)
        (fun other hdeed hne => by
          rw [others_append]
          exact List.mem_append_right _ (mem_others_singleton hdeed hne))
        hcount (hsheltered.mono hsub)
      refine ⟨hnext, ?_⟩
      intro m' hm'
      rcases List.mem_append.mp hm' with hm' | hm'
      · exact hpasts m' hm'
      · cases List.mem_singleton.mp hm'
        exact ⟨hsheltered.fetches_eq_false hbefore, hsheltered.inNew hbefore, hnext.inNew hafter⟩
  | counted _ ih => exact ih hdeeds hcount

/-!
# Reached caches
-/

theorem Passes.exists_front (h : Coherent config m.before s) (hpasses : Passes m s s')
    (hdeed : m.deed = .access key) (he : e ∈ s'.zones.news) (hkey : e.2.key = key) :
    exists front behind, s'.zones.news = front :: behind ∧ front.2.key = key := by
  cases hpasses with
  | accessed haccessed =>
      cases hdeed
      cases haccessed with
      | hit hmem hblockKey =>
          have hblock := CutSequence.block?_eq_some_iff.mpr hmem
          rename_i slot block list moves
          by_cases hnew : slot ∈ s.newSlots
          · rw [CutSequence.touch_of_new hblock hnew, CutSequence.news_toFront hnew]
            exact ⟨_, _, rfl, hblockKey⟩
          · -- A block that is hit behind New does not come to New.
            rw [CutSequence.touch_of_not_new hblock hnew, CutSequence.news_toCut hnew] at he
            have hsame := h.eq_of_keys_eq (List.mem_of_mem_take he) hmem
              (hkey.trans hblockKey.symm)
            cases hsame
            exact absurd (List.mem_map_of_mem he) hnew
      | failed habsent | oversized habsent | pastEnd habsent =>
          exact absurd hkey (habsent.key_ne (List.mem_of_mem_take he))
      | admitted habsent hanswer hstorable hroom fresh =>
          rw [CutSequence.news_push] at he ⊢
          have hpos : 0 < config.maxNew.toNat := by
            have hlength := List.length_pos_of_mem he
            rw [List.length_take] at hlength
            omega
          exact ⟨_, _, List.take_cons hpos, rfl⟩
  | invalidated hslots => cases hdeed
  | cleared => cases hdeed

/--
A block that an access has just left in New is at the front of the list. If there is room
outside New, the block stays in New without references and is not fetched again, until its
file is dropped or as many other blocks as New has places for have been accessed.
-/
theorem working_set_of_reached (hplaces : config.maxNew.toNat < config.capacity.toNat)
    (h : ReachedBy config (log ++ [m]) c) (hdeed : m.deed = .access key)
    (hnew : c.segment? key.fd key.index = some .new) :
    (Completes c.residents fun residents =>
        exists block rest, residents = (block, .new) :: rest ∧ block.key = key) ∧
      forall later c' past rest, Trail c later c' -> later = past ++ rest ->
        (forall m, m ∈ past -> m.deed ≠ .clear ∧ m.deed ≠ .invalidate key.fd) ->
        (others key past).dedup.length < config.maxNew.toNat ->
          (forall m, m ∈ past ->
            m.fetches key = false ∧ InNew m.before key ∧ InNew m.after key) ∧
          (rest = [] -> InNew c' key) := by
  rcases h.chronicle with ⟨hvalid, created, s, hchronicle, hs⟩
  have hcounted := hchronicle.counters
  rcases hchronicle.split with ⟨c₁, s₁, -, hlast⟩
  rcases hlast.of_cons with ⟨c₂, s₂, hbefore, hpasses, -, hnothing⟩
  cases hnothing.eq_of_nil
  rcases hs.segment?_eq_some_iff.mp hnew with ⟨slot, block, hmem, hkey⟩
  rcases hpasses.exists_front hbefore hdeed hmem hkey with ⟨front, behind, hnews, hfront⟩
  constructor
  · refine hs.residents_completes.mono ?_
    rintro residents rfl
    rw [Zones.residents, hnews, Zones.tagged_cons]
    exact ⟨front.2, _, rfl, hfront⟩
  · intro later c' past rest htrail hlater hdeeds hcount
    have hsheltered : Sheltered key [] s.zones.news := by
      have hzero : front.2.counter = 0 := hcounted.new front (hnews ▸ List.mem_cons_self)
      rw [hnews]
      exact sheltered_cons [] behind hfront hzero
    rcases htrail.chronicle hvalid hs with ⟨s', hcontinued, hs'⟩
    rw [hlater] at hcontinued
    rcases hcontinued.split with ⟨c₃, s₃, hpast, hrest⟩
    rcases hpast.sheltered hvalid hplaces hdeeds hcount hsheltered with ⟨hstill, hmoments⟩
    refine ⟨hmoments, ?_⟩
    intro hnil
    rw [hnil] at hrest
    cases hrest.eq_of_nil
    exact hstill.inNew hs'

def twoNew : Config :=
  { maxOld := 1, blockSize := 2, maxNew := 2, capacity := 3 }

theorem working_set_of_reached_two_new :
    exists (log : List (Moment MemoryFiles)) (m : Moment MemoryFiles) (c : Cache MemoryFiles)
      (later : List (Moment MemoryFiles)) (c' : Cache MemoryFiles),
      twoNew.maxNew.toNat < twoNew.capacity.toNat ∧ ReachedBy twoNew (log ++ [m]) c ∧
        m.deed = .access ⟨⟨5⟩, ⟨0⟩⟩ ∧ c.segment? ⟨5⟩ ⟨0⟩ = some .new ∧ Trail c later c' ∧
        c.isResident ⟨5⟩ ⟨2⟩ = true ∧ c'.isResident ⟨5⟩ ⟨2⟩ = false ∧
        InNew c' ⟨⟨5⟩, ⟨0⟩⟩ := by
  have hrun : Completes (create twoNew eightBytes) fun created =>
      Completes (created.cache.perform (.read ⟨5⟩ ⟨4⟩ [0, 0, 0])) fun first =>
        Completes (first.cache.access ⟨5⟩ ⟨0⟩) fun second =>
          Completes (second.cache.perform (.read ⟨5⟩ ⟨2⟩ [0])) fun third =>
            Completes (third.cache.perform (.read ⟨5⟩ ⟨3⟩ [0])) fun last =>
              (second.cache.segment? ⟨5⟩ ⟨0⟩ = some .new ∧
                second.cache.isResident ⟨5⟩ ⟨2⟩ = true ∧
                last.cache.isResident ⟨5⟩ ⟨2⟩ = false) ∧
              (forall m, m ∈ [] ++ second.cache.journal (.read ⟨5⟩ ⟨2⟩ [0]) ++
                  third.cache.journal (.read ⟨5⟩ ⟨3⟩ [0]) ->
                m.deed ≠ .clear ∧ m.deed ≠ .invalidate ⟨5⟩) ∧
              (others ⟨⟨5⟩, ⟨0⟩⟩ ([] ++ second.cache.journal (.read ⟨5⟩ ⟨2⟩ [0]) ++
                third.cache.journal (.read ⟨5⟩ ⟨3⟩ [0]))).dedup.length < twoNew.maxNew.toNat := by
    refine ⟨_, rfl, _, rfl, _, rfl, _, rfl, _, rfl, ?_, ?_, ?_⟩
    · decide +kernel
    · decide +kernel
    · decide +kernel
  rcases hrun with ⟨created, hcreate, first, hfirst, second, hsecond, third, hthird, last, hlast,
    ⟨hnew, hbefore, hafter⟩, hdeeds, hcount⟩
  have hplaces : twoNew.maxNew.toNat < twoNew.capacity.toNat := by decide
  have htrail : Trail created.cache
      (([] ++ created.cache.journal (.read ⟨5⟩ ⟨4⟩ [0, 0, 0])) ++
        [⟨.access ⟨⟨5⟩, ⟨0⟩⟩, first.cache, second.cache⟩]) second.cache :=
    (Trail.refl.performed hfirst).accessed hsecond
  have hreached := ReachedBy.created hcreate htrail
  have hlater := (Trail.refl.performed hthird).performed hlast
  have hsafe := (working_set_of_reached hplaces hreached rfl hnew).2 _ _ _ [] hlater
    (List.append_nil _).symm hdeeds hcount
  exact ⟨_, _, _, _, _, hplaces, hreached, rfl, hnew, hlater, hbefore, hafter, hsafe.2 rfl⟩

end Cache
end BlockCache

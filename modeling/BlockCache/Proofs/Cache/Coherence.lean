import BlockCache.Proofs.Cache.Contents
import BlockCache.Proofs.Index
import BlockCache.Cache.Basic

/-!
# Coherent caches

A cache keeps its blocks twice: in the recency list, where they have slots, and in the
index, which finds the slots by key. A coherent cache has a sequence of blocks on which
the two agree, and every operation leads from one coherent cache to another.
-/

namespace BlockCache
namespace Cache

open CutSequence (Holding)
open RecencyList (Represents)

abbrev Contents (config : Config) : Type :=
  CutSequence config.maxNew.toNat config.maxOld.toNat

/-- Bytes that a block may have: at least one, and no more than its size. -/
def Storable (config : Config) (data : Bytes) : Prop :=
  data ≠ [] ∧ data.length <= config.blockSize.toNat

def Absent {config : Config} (s : Contents config) (key : BlockKey) : Prop :=
  forall held, held ∈ s.holdings -> held.key ≠ key

/-- List and index agree on the blocks `s`, which are within the sizes. -/
structure Agree (config : Config) (list : RecencyList) (index : Index) (s : Contents config) :
    Prop where
  represents : Represents list s
  found : forall key slot,
    index.find? key = some slot <-> exists data, Holding.mk slot key data ∈ s.holdings
  tight : index.Tight
  fits : s.Fits config.capacity.toNat
  storable : forall held, held ∈ s.holdings -> Storable config held.data

section Agree

variable {config : Config} {list list' : RecencyList} {index : Index} {s : Contents config}
  {key : BlockKey} {slot : Slot}

theorem Agree.eq_of_key_eq (h : Agree config list index s) {held held' : Holding}
    (hheld : held ∈ s.holdings) (hheld' : held' ∈ s.holdings) (hkey : held.key = held'.key) :
    held = held' := by
  have hfound := (h.found held.key held.slot).mpr ⟨held.data, hheld⟩
  have hfound' := (h.found held'.key held'.slot).mpr ⟨held'.data, hheld'⟩
  rw [hkey, hfound'] at hfound
  exact CutSequence.holding_eq_of_slot_eq hheld hheld' (Option.some.inj hfound).symm

theorem Agree.find?_eq_none_iff (h : Agree config list index s) :
    index.find? key = none <-> Absent s key := by
  constructor
  · intro hnone held hheld hkey
    have hfound := (h.found key held.slot).mpr ⟨held.data, hkey ▸ hheld⟩
    rw [hnone] at hfound
    cases hfound
  · intro habsent
    cases hfind : index.find? key with
    | none => rfl
    | some slot =>
        rcases (h.found key slot).mp hfind with ⟨data, hheld⟩
        exact absurd rfl (habsent _ hheld)

theorem Agree.find?_eq_some_iff (h : Agree config list index s) :
    index.find? key = some slot <-> exists block, (slot, block) ∈ s.items ∧ block.key = key := by
  rw [h.found]
  constructor
  · rintro ⟨data, hheld⟩
    rcases CutSequence.exists_of_mem_holdings hheld with ⟨block, hmem, hkey, -⟩
    exact ⟨block, hmem, hkey⟩
  · rintro ⟨block, hmem, rfl⟩
    exact ⟨block.data, CutSequence.mem_holdings hmem⟩

theorem Agree.block?_eq (h : Agree config list index s) {block : Block}
    (hmem : (slot, block) ∈ s.items) : list.block? slot = some block := by
  rw [h.represents.block?_eq, CutSequence.block?_eq_some_iff]
  exact hmem

theorem agree_empty (hvalid : config.Valid) :
    Agree config (.empty config.maxNew.toNat config.maxOld.toNat) .empty .empty where
  represents := RecencyList.represents_empty _ _
  found key slot := by
    rw [Index.find?_empty]
    simp [CutSequence.holdings, CutSequence.empty]
  tight := Index.tight_empty
  fits := CutSequence.fits_empty (by have h := hvalid.reserved_le; omega)
  storable held hheld := by cases hheld

theorem Agree.touch (h : Agree config list index s) (hlist : Represents list' (s.touch slot).2) :
    Agree config list' index (s.touch slot).2 where
  represents := hlist
  found key other := by
    rw [h.found]
    simp only [(CutSequence.holdings_touch_perm s slot).mem_iff]
  tight := h.tight
  fits := h.fits.touch slot
  storable held hheld :=
    h.storable held ((CutSequence.holdings_touch_perm s slot).mem_iff.mp hheld)

theorem Agree.remove (h : Agree config list index s) {data : Bytes}
    (hheld : ⟨slot, key, data⟩ ∈ s.holdings) (hlist : Represents list' (s.remove slot)) :
    Agree config list' (index.erase key) (s.remove slot) where
  represents := hlist
  found other slot' := by
    simp only [Index.find?_erase, CutSequence.mem_holdings_remove]
    by_cases hother : other = key
    · -- The only block with this key is the one that goes.
      simp only [if_pos hother, reduceCtorEq, false_iff, not_exists, not_and, not_not]
      intro data' hheld'
      exact congrArg Holding.slot (h.eq_of_key_eq hheld' hheld hother)
    · rw [if_neg hother, h.found]
      constructor
      · rintro ⟨data', hheld'⟩
        refine ⟨data', hheld', ?_⟩
        intro hslot
        exact hother (congrArg Holding.key
          (CutSequence.holding_eq_of_slot_eq hheld' hheld hslot))
      · rintro ⟨data', hheld', -⟩
        exact ⟨data', hheld'⟩
  tight := h.tight.erase key
  fits := h.fits.remove slot
  storable held hremoved := h.storable held (CutSequence.mem_holdings_remove.mp hremoved).1

theorem Agree.push (h : Agree config list index s) {block : Block} (habsent : Absent s block.key)
    (hroom : s.items.length < config.capacity.toNat) (hstorable : Storable config block.data)
    (fresh : slot ∉ s.slots) (hlist : Represents list' (s.push slot block fresh)) :
    Agree config list' (index.insert block.key slot) (s.push slot block fresh) where
  represents := hlist
  found other slot' := by
    rw [Index.find?_insert, CutSequence.holdings_push]
    simp only [List.mem_cons, Holding.mk.injEq]
    by_cases hother : other = block.key
    · rw [if_pos hother, Option.some.injEq]
      constructor
      · intro hslot
        exact ⟨block.data, .inl ⟨hslot.symm, hother, rfl⟩⟩
      · rintro ⟨data, hpushed | hheld⟩
        · exact hpushed.1.symm
        · exact absurd hother (habsent _ hheld)
    · rw [if_neg hother, h.found]
      simp [hother]
  tight := h.tight.insert block.key slot
  fits := h.fits.push hroom fresh
  storable held hheld := by
    rw [CutSequence.holdings_push] at hheld
    rcases List.mem_cons.mp hheld with rfl | hheld
    · exact hstorable
    · exact h.storable held hheld

theorem Agree.mem_slotsOf?_iff (h : Agree config list index s) {fd : FileDescriptor}
    {slots : List Slot} (hslots : index.slotsOf? fd = some slots) {held : Holding}
    (hheld : held ∈ s.holdings) : held.slot ∈ slots <-> held.key.fd = fd := by
  have hfound := (h.found held.key held.slot).mpr ⟨held.data, hheld⟩
  rw [Index.mem_slotsOf? hslots]
  constructor
  · rintro ⟨number, hnumber⟩
    rcases (h.found _ held.slot).mp hnumber with ⟨data', hheld'⟩
    have hsame := CutSequence.holding_eq_of_slot_eq hheld hheld' rfl
    exact congrArg (fun held => held.key.fd) hsame
  · rintro rfl
    exact ⟨held.key.index, hfound⟩

theorem Agree.fd_ne_of_slotsOf?_eq_none (h : Agree config list index s) {fd : FileDescriptor}
    (hslots : index.slotsOf? fd = none) {held : Holding} (hheld : held ∈ s.holdings) :
    held.key.fd ≠ fd := by
  intro hfd
  have hfound := (h.found held.key held.slot).mpr ⟨held.data, hheld⟩
  have hfile : index.files[held.key.fd]? = none := by
    rw [hfd]
    exact Option.map_eq_none_iff.mp hslots
  simp only [Index.find?, hfile] at hfound
  cases hfound

theorem Agree.removeFile (h : Agree config list index s) {fd : FileDescriptor} {slots : List Slot}
    (hslots : index.slotsOf? fd = some slots) (hlist : Represents list' (s.removeAll slots)) :
    Agree config list' (index.eraseFile fd) (s.removeAll slots) where
  represents := hlist
  found key slot := by
    simp only [Index.find?_eraseFile, CutSequence.mem_holdings_removeAll]
    by_cases hfd : key.fd = fd
    · simp only [if_pos hfd, reduceCtorEq, false_iff, not_exists, not_and, not_not]
      intro data hheld
      exact (h.mem_slotsOf?_iff hslots hheld).mpr hfd
    · rw [if_neg hfd, h.found]
      constructor
      · rintro ⟨data, hheld⟩
        exact ⟨data, hheld, fun hslot => hfd ((h.mem_slotsOf?_iff hslots hheld).mp hslot)⟩
      · rintro ⟨data, hheld, -⟩
        exact ⟨data, hheld⟩
  tight := h.tight.eraseFile fd
  fits := h.fits.removeAll slots
  storable held hheld := h.storable held (CutSequence.mem_holdings_removeAll.mp hheld).1

end Agree

/-!
# Coherence
-/

variable {σ : Type}

/-- The list and the index of `c` agree on the blocks `s`. -/
structure Coherent (config : Config) (c : Cache σ) (s : Contents config) : Prop
    extends Agree config c.list c.index s where
  config_eq : c.config = config

section Coherent

variable {config : Config} {c : Cache σ} {s : Contents config}

theorem Coherent.length_eq (h : Coherent config c s) : c.length = s.items.length := by
  rw [length, h.represents.arranged.length_eq, s.items_zones]

theorem Coherent.capacity_eq (h : Coherent config c s) : c.capacity = config.capacity.toNat := by
  rw [capacity, h.config_eq]

theorem create_completes (hvalid : config.Valid) (source : σ) :
    Completes (create config source) fun step =>
      step.cache.source = source ∧ Coherent config step.cache .empty := by
  refine Completes.bind_eq (Config.validate_eq_ok_iff.mpr hvalid) ?_
  exact Completes.pure ⟨rfl, agree_empty hvalid, rfl⟩

theorem valid_of_create {source : σ} {step : Step σ Unit} (h : create config source = .ok step) :
    config.Valid := by
  cases hvalidate : config.validate with
  | error e =>
      rw [create, hvalidate] at h
      cases h
  | ok u => exact Config.validate_eq_ok_iff.mp hvalidate

/-!
# Questions to a coherent cache
-/

variable {key : BlockKey}

theorem Coherent.isResident_iff (h : Coherent config c s) :
    c.isResident key.fd key.index = true <->
      exists slot block, (slot, block) ∈ s.items ∧ block.key = key := by
  rw [isResident, Option.isSome_iff_exists]
  exact exists_congr fun slot => h.find?_eq_some_iff

theorem Coherent.isResident_eq_false_iff (h : Coherent config c s) :
    c.isResident key.fd key.index = false <-> Absent s key := by
  rw [<- h.find?_eq_none_iff, isResident, Option.isSome_eq_false_iff, Option.isNone_iff_eq_none]
  rfl

theorem Coherent.key_ne_of_slot_ne (h : Coherent config c s) {e e' : Item} (he : e ∈ s.items)
    (he' : e' ∈ s.items) (hslot : e.1 ≠ e'.1) : e.2.key ≠ e'.2.key := by
  intro hkey
  have hsame := h.eq_of_key_eq (CutSequence.mem_holdings he) (CutSequence.mem_holdings he') hkey
  exact hslot (congrArg CutSequence.Holding.slot hsame)

theorem Coherent.eq_of_keys_eq (h : Coherent config c s) {e e' : Item} (he : e ∈ s.items)
    (he' : e' ∈ s.items) (hkey : e.2.key = e'.2.key) : e = e' := by
  by_cases hslot : e.1 = e'.1
  · exact List.inj_on_of_nodup_map s.nodup he he' hslot
  · exact absurd hkey (h.key_ne_of_slot_ne he he' hslot)

theorem Coherent.nodup_keys (h : Coherent config c s) :
    (s.items.map fun e => e.2.key).Nodup := by
  apply List.Nodup.map_on _ (List.Nodup.of_map _ s.nodup)
  intro e he e' he' hkey
  exact h.eq_of_keys_eq he he' hkey

theorem Coherent.isResident_remove_iff {c' : Cache σ} {slot : Slot} {block : Block}
    (h : Coherent config c s) (h' : Coherent config c' (s.remove slot))
    (hmem : (slot, block) ∈ s.items) :
    c'.isResident key.fd key.index = true <->
      c.isResident key.fd key.index = true ∧ key ≠ block.key := by
  rw [h.isResident_iff, h'.isResident_iff]
  constructor
  · intro hresident
    rcases hresident with ⟨slot', block', hmem', rfl⟩
    rcases mem_without.mp hmem' with ⟨hitem, hslot⟩
    exact ⟨⟨slot', block', hitem, rfl⟩, h.key_ne_of_slot_ne hitem hmem hslot⟩
  · intro hresident
    rcases hresident with ⟨⟨slot', block', hitem, rfl⟩, hkey⟩
    refine ⟨slot', block', mem_without.mpr ⟨hitem, ?_⟩, rfl⟩
    intro hslot
    exact hkey (congrArg (fun e => e.2.key)
      (List.inj_on_of_nodup_map s.nodup hitem hmem hslot))

theorem Coherent.counter?_eq_some_iff (h : Coherent config c s) {n : UInt64} :
    c.counter? key.fd key.index = some n <->
      exists slot block, (slot, block) ∈ s.items ∧ block.key = key ∧ block.counter = n := by
  rw [counter?, Option.bind_eq_some_iff]
  constructor
  · intro hcounter
    rcases hcounter with ⟨slot, hslot, hcounter⟩
    rcases h.find?_eq_some_iff.mp hslot with ⟨block, hmem, hkey⟩
    rw [h.block?_eq hmem] at hcounter
    exact ⟨slot, block, hmem, hkey, Option.some.inj hcounter⟩
  · intro hresident
    rcases hresident with ⟨slot, block, hmem, hkey, hcounter⟩
    refine ⟨slot, h.find?_eq_some_iff.mpr ⟨block, hmem, hkey⟩, ?_⟩
    rw [h.block?_eq hmem, Option.map_some, hcounter]

theorem Coherent.segment?_eq_some_iff (h : Coherent config c s) {segment : Segment} :
    c.segment? key.fd key.index = some segment <->
      exists slot block, (slot, block) ∈ s.zones.zone segment ∧ block.key = key := by
  rw [segment?, Option.bind_eq_some_iff]
  constructor
  · intro hsegment
    rcases hsegment with ⟨slot, hslot, hsegment⟩
    rcases h.find?_eq_some_iff.mp hslot with ⟨block, hmem, hkey⟩
    rw [h.represents.segment?_eq_some_iff] at hsegment
    rcases List.mem_map.mp hsegment with ⟨e, he, hfst⟩
    rw [List.inj_on_of_nodup_map s.nodup (CutSequence.mem_items_of_zone he) hmem hfst] at he
    exact ⟨slot, block, he, hkey⟩
  · intro hzone
    rcases hzone with ⟨slot, block, hmem, hkey⟩
    refine ⟨slot, h.find?_eq_some_iff.mpr ⟨block, CutSequence.mem_items_of_zone hmem, hkey⟩, ?_⟩
    rw [h.represents.segment?_eq_some_iff]
    exact List.mem_map_of_mem hmem

theorem Coherent.segment?_ne_new_iff (h : Coherent config c s) :
    c.segment? key.fd key.index ≠ some .new <->
      forall e, e ∈ s.zones.news -> e.2.key ≠ key := by
  rw [Ne, h.segment?_eq_some_iff]
  constructor
  · intro hnone e he hkey
    exact hnone ⟨e.1, e.2, he, hkey⟩
  · intro hne hsome
    rcases hsome with ⟨slot, block, hmem, hkey⟩
    exact hne _ hmem hkey

theorem Coherent.residents_completes (h : Coherent config c s) :
    Completes c.residents fun residents =>
      residents = s.zones.residents.map fun r => (r.block, r.segment) := by
  refine Completes.bind_eq h.represents.arranged.entries_eq ?_
  exact Completes.pure (RecencyList.map_entriesOf (fun _ _ _ => rfl) none none _)

end Coherent

def threeBlocks : Config :=
  { maxOld := 1, blockSize := 2, maxNew := 1, capacity := 3 }

theorem threeBlocks_valid : threeBlocks.Valid :=
  ⟨by decide, by decide, by decide⟩

end Cache
end BlockCache

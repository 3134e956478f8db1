import BlockCache.Proofs.Cache.Journal

/-!
# What a moment does to a block

Every block that is there after a moment has been admitted by it, has been hit by it, or
has stayed as it was. What holds of a block over a whole journal is shown moment by moment
from these three cases.
-/

namespace BlockCache

namespace Moment

variable {σ : Type} {m : Moment σ} {key : BlockKey}

theorem fetches_eq_false_of_deed (h : m.deed ≠ .access key) : m.fetches key = false := by
  simp [fetches, h]

theorem credits_eq_false_of_deed (h : m.deed ≠ .access key) : m.credits key = false := by
  simp [credits, h]

theorem admits_eq_false_of_fetches (h : m.fetches key = false) : m.admits key = false := by
  simp [admits, h]

theorem serves_of_admits (h : m.admits key = true) : m.serves key = true := by
  simp [serves, h]

theorem serves_eq_false_of_deed (h : m.deed ≠ .access key) : m.serves key = false := by
  simp [serves, hits, admits, fetches, h]

end Moment

namespace Cache

variable {σ : Type} {config : Config} {c : Cache σ} {s s' : Contents config} {key : BlockKey}
  {e : Item}

theorem Absent.key_ne (habsent : Absent s key) (he : e ∈ s.items) : e.2.key ≠ key :=
  habsent _ (CutSequence.mem_holdings he)

theorem Coherent.segment?_of_new (h : Coherent config c s) (he : e ∈ s.items)
    (hnew : e.1 ∈ s.newSlots) : c.segment? e.2.key.fd e.2.key.index = some .new :=
  h.segment?_eq_some_iff.mpr ⟨e.1, e.2, CutSequence.mem_news hnew he, rfl⟩

theorem Coherent.segment?_of_not_new (h : Coherent config c s) (he : e ∈ s.items)
    (hnew : e.1 ∉ s.newSlots) :
    c.segment? e.2.key.fd e.2.key.index = some .middle ∨
      c.segment? e.2.key.fd e.2.key.index = some .old := by
  rw [<- s.items_zones] at he
  rcases Zones.mem_items_iff.mp he with ⟨segment, hzone⟩
  have hsegment : c.segment? e.2.key.fd e.2.key.index = some segment :=
    h.segment?_eq_some_iff.mpr ⟨e.1, e.2, hzone, rfl⟩
  cases segment with
  | new => exact absurd (List.mem_map_of_mem hzone) hnew
  | middle => exact .inl hsegment
  | old => exact .inr hsegment

theorem Coherent.serves_of_mem {c' : Cache σ} (h : Coherent config c s) (he : e ∈ s.items) :
    (⟨.access e.2.key, c, c'⟩ : Moment σ).serves e.2.key = true := by
  have hresident : c.isResident e.2.key.fd e.2.key.index = true :=
    h.isResident_iff.mpr ⟨e.1, e.2, he, rfl⟩
  simp [Moment.serves, Moment.hits, hresident]

theorem Coherent.admits_of_absent {c' : Cache σ} (h : Coherent config c s)
    (h' : Coherent config c' s') (habsent : Absent s key) (he : e ∈ s'.items)
    (hkey : e.2.key = key) : (⟨.access key, c, c'⟩ : Moment σ).admits key = true := by
  have hbefore : c.isResident key.fd key.index = false := h.isResident_eq_false_iff.mpr habsent
  have hafter : c'.isResident key.fd key.index = true :=
    h'.isResident_iff.mpr ⟨e.1, e.2, he, hkey⟩
  simp [Moment.admits, Moment.fetches, hbefore, hafter]

theorem MadeRoom.news_sublist {room : Step σ (Option Block)} (hroom : MadeRoom c s room s') :
    s'.zones.news.Sublist s.zones.news := by
  cases hroom with
  | spare hlt => exact List.Sublist.refl _
  | evicted hfull hcandidate hmem =>
      rw [CutSequence.news_remove]
      exact List.filter_sublist

variable [BlockSource σ] {m : Moment σ}

/-- Where a block comes from that is there after a moment. -/
inductive Origin (m : Moment σ) (s : Contents config) (e : Item) : Prop where
  | kept : e ∈ s.items -> m.fetches e.2.key = false -> m.credits e.2.key = false ->
      Origin m s e
  | credited {block : Block} : (e.1, block) ∈ s.items -> e.2 = block.credit ->
      m.fetches e.2.key = false -> m.credits e.2.key = true -> Origin m s e
  | admitted : m.admits e.2.key = true -> e.2.counter = 0 ->
      (m.before.supply e.2.key).answer = .ok e.2.data -> Origin m s e

theorem Origin.of_deed (he : e ∈ s.items) (hdeed : m.deed ≠ .access e.2.key) : Origin m s e :=
  .kept he (Moment.fetches_eq_false_of_deed hdeed) (Moment.credits_eq_false_of_deed hdeed)

theorem Origin.of_access {after : Cache σ} (he : e ∈ s.items) (hkey : e.2.key ≠ key) :
    Origin ⟨.access key, c, after⟩ s e :=
  .of_deed he fun hdeed => hkey (Deed.access.inj hdeed).symm

theorem Origin.of_hit {after : Cache σ} {slot : Slot} {block : Block} (h : Coherent config c s)
    (hmem : (slot, block) ∈ s.items) :
    Origin ⟨.access block.key, c, after⟩ s (slot, s.counted slot block) := by
  have hkey := s.key_counted slot block
  have hfetches : (⟨.access block.key, c, after⟩ : Moment σ).fetches
      (s.counted slot block).key = false := by
    have hresident : c.isResident block.key.fd block.key.index = true :=
      h.isResident_iff.mpr ⟨slot, block, hmem, rfl⟩
    simp [Moment.fetches, hkey, hresident]
  by_cases hnew : slot ∈ s.newSlots
  · have hsegment := h.segment?_of_new hmem hnew
    have hcredits : (⟨.access block.key, c, after⟩ : Moment σ).credits
        (s.counted slot block).key = false := by
      simp [Moment.credits, hkey, hsegment]
    have hsame : s.counted slot block = block := if_pos hnew
    exact .kept (hsame.symm ▸ hmem) hfetches hcredits
  · have hcredits : (⟨.access block.key, c, after⟩ : Moment σ).credits
        (s.counted slot block).key = true := by
      rcases h.segment?_of_not_new hmem hnew with hsegment | hsegment <;>
        simp [Moment.credits, hkey, hsegment]
    exact .credited hmem (if_neg hnew) hfetches hcredits

theorem Accessed.origin {step : Step σ (Except Error (Option Slot))} (h : Coherent config c s)
    (h' : Coherent config step.cache s') (haccessed : Accessed c s key step s')
    (he : e ∈ s'.items) : Origin ⟨.access key, c, step.cache⟩ s e := by
  cases haccessed with
  | hit hmem hkey =>
      rename_i slot block list moves
      rcases List.mem_cons.mp ((CutSequence.items_touch_perm hmem).mem_iff.mp he) with rfl | hrest
      · rw [<- hkey]
        exact .of_hit h hmem
      · rcases mem_without.mp hrest with ⟨hitem, hslot⟩
        exact .of_access hitem (hkey ▸ h.key_ne_of_slot_ne hitem hmem hslot)
  | failed habsent | oversized habsent | pastEnd habsent =>
      exact .of_access he (habsent.key_ne he)
  | admitted habsent hanswer hstorable hroom fresh =>
      rename_i data room s₁ slot list moves
      rcases List.mem_cons.mp he with rfl | hrest
      · exact .admitted (h.admits_of_absent h' habsent he rfl) rfl hanswer
      · have hitem := hroom.items_sublist.subset hrest
        exact .of_access hitem (habsent.key_ne hitem)

theorem Passes.origin (h : Coherent config m.before s) (h' : Coherent config m.after s')
    (hpasses : Passes m s s') (he : e ∈ s'.items) : Origin m s e := by
  cases hpasses with
  | accessed haccessed => exact haccessed.origin h h' he
  | invalidated hslots =>
      rw [CutSequence.items_removeAll, List.mem_filter] at he
      exact .of_deed he.1 nofun
  | cleared => cases he

theorem Passes.deed_ne (hpasses : Passes m s s') (he : e ∈ s'.items) :
    m.deed ≠ .clear ∧ m.deed ≠ .invalidate e.2.key.fd := by
  cases hpasses with
  | accessed haccessed => exact ⟨nofun, nofun⟩
  | invalidated hslots =>
      rename_i c fd slots list index
      rw [CutSequence.items_removeAll, List.mem_filter, decide_eq_true_eq] at he
      constructor
      · exact nofun
      · intro hdeed
        have hfd : e.2.key.fd = fd := (Deed.invalidate.inj hdeed).symm
        exact he.2 ((hslots _ (CutSequence.mem_holdings he.1)).mpr hfd)
  | cleared => cases he

theorem Passes.mem_news (h : Coherent config m.before s) (h' : Coherent config m.after s')
    (hpasses : Passes m s s') (he : e ∈ s'.zones.news) :
    e ∈ s.zones.news ∨ (m.admits e.2.key = true ∧ e.2.counter = 0) := by
  cases hpasses with
  | accessed haccessed =>
      cases haccessed with
      | hit hmem hkey =>
          left
          rename_i slot block list moves
          have hblock := CutSequence.block?_eq_some_iff.mpr hmem
          by_cases hnew : slot ∈ s.newSlots
          · rw [CutSequence.touch_of_new hblock hnew, CutSequence.news_toFront hnew] at he
            rcases List.mem_cons.mp he with rfl | hrest
            · exact CutSequence.mem_news hnew hmem
            · exact (mem_without.mp hrest).1
          · rw [CutSequence.touch_of_not_new hblock hnew, CutSequence.news_toCut hnew] at he
            exact he
      | failed | oversized | pastEnd => exact .inl he
      | admitted habsent hanswer hstorable hroom fresh =>
          rw [CutSequence.news_push] at he
          rcases List.mem_cons.mp (List.mem_of_mem_take he) with rfl | hrest
          · exact .inr ⟨h.admits_of_absent h' habsent List.mem_cons_self rfl, rfl⟩
          · exact .inl (hroom.news_sublist.subset hrest)
  | invalidated hslots =>
      rw [CutSequence.news_removeAll, List.mem_filter] at he
      exact .inl he.1
  | cleared =>
      rw [CutSequence.zones_empty] at he
      cases he

end Cache
end BlockCache

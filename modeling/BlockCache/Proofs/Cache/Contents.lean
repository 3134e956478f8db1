import BlockCache.Proofs.RecencyList.Refinement

/-!
# The blocks of a cache

A cache sees the blocks of its recency list by slot, key and data: counters and order are
the list's own affair. Hits change neither, so they only permute what the cache holds.

A sequence fits a capacity if it is no longer than the capacity and New is short of its
bound by no more blocks than the whole is short of the capacity. The second part is what
makes New full whenever the cache is, although New is never refilled from Middle.
-/

namespace BlockCache

theorem perm_cons_without {items : List Item} {slot : Slot} {block : Block}
    (h : (items.map Prod.fst).Nodup) (hmem : (slot, block) ∈ items) :
    ((slot, block) :: without slot items).Perm items := by
  rcases List.mem_iff_append.mp hmem with ⟨as, bs, rfl⟩
  rw [without_middle h]
  exact List.perm_middle.symm

theorem filter_without (slot : Slot) (slots : List Slot) (items : List Item) :
    (without slot items).filter (fun e => e.1 ∉ slots) =
      items.filter fun e => e.1 ∉ slot :: slots := by
  rw [without, List.filter_filter]
  apply List.filter_congr
  intro e _
  simp [Bool.and_comm]

namespace CutSequence

variable {maxNew maxOld : Nat} {s : CutSequence maxNew maxOld} {slot : Slot} {block : Block}

structure Holding where
  slot : Slot
  key : BlockKey
  data : Bytes

def holding (e : Item) : Holding :=
  ⟨e.1, e.2.key, e.2.data⟩

def holdings (s : CutSequence maxNew maxOld) : List Holding :=
  s.items.map holding

theorem mem_holdings (h : (slot, block) ∈ s.items) :
    ⟨slot, block.key, block.data⟩ ∈ s.holdings :=
  List.mem_map_of_mem h

theorem exists_of_mem_holdings {held : Holding} (h : held ∈ s.holdings) :
    exists block, (held.slot, block) ∈ s.items ∧ block.key = held.key ∧ block.data = held.data := by
  rcases List.mem_map.mp h with ⟨⟨slot, block⟩, hmem, rfl⟩
  exact ⟨block, hmem, rfl, rfl⟩

theorem holding_eq_of_slot_eq {held held' : Holding} (h : held ∈ s.holdings)
    (h' : held' ∈ s.holdings) (hslot : held.slot = held'.slot) : held = held' := by
  rcases List.mem_map.mp h with ⟨e, he, rfl⟩
  rcases List.mem_map.mp h' with ⟨e', he', rfl⟩
  rw [List.inj_on_of_nodup_map s.nodup he he' hslot]

theorem holdings_push (fresh : slot ∉ s.slots) :
    (s.push slot block fresh).holdings = ⟨slot, block.key, block.data⟩ :: s.holdings := rfl

theorem mem_holdings_remove {held : Holding} :
    held ∈ (s.remove slot).holdings <-> held ∈ s.holdings ∧ held.slot ≠ slot := by
  simp only [holdings, remove, List.mem_map, mem_without]
  constructor
  · rintro ⟨e, ⟨he, hne⟩, rfl⟩
    exact ⟨⟨e, he, rfl⟩, hne⟩
  · rintro ⟨⟨e, he, rfl⟩, hne⟩
    exact ⟨e, ⟨he, hne⟩, rfl⟩

theorem mem_news (hnew : slot ∈ s.newSlots) (hmem : (slot, block) ∈ s.items) :
    (slot, block) ∈ s.zones.news := by
  rcases List.mem_map.mp hnew with ⟨e, he, hslot⟩
  have hsame := List.inj_on_of_nodup_map s.nodup (List.mem_of_mem_take he) hmem hslot
  exact hsame ▸ he

/-- What a hit makes of the block in `slot`: one reference more, unless the block is New. -/
def counted (s : CutSequence maxNew maxOld) (slot : Slot) (block : Block) : Block :=
  if slot ∈ s.newSlots then block else block.credit

theorem key_counted (s : CutSequence maxNew maxOld) (slot : Slot) (block : Block) :
    (s.counted slot block).key = block.key := by
  unfold counted
  split <;> rfl

theorem data_counted (s : CutSequence maxNew maxOld) (slot : Slot) (block : Block) :
    (s.counted slot block).data = block.data := by
  unfold counted
  split <;> rfl

theorem items_touch_perm (hmem : (slot, block) ∈ s.items) :
    (s.touch slot).2.items.Perm ((slot, s.counted slot block) :: without slot s.items) := by
  have hblock := block?_eq_some_iff.mpr hmem
  unfold counted
  by_cases hnew : slot ∈ s.newSlots
  · rw [touch_of_new hblock hnew, if_pos hnew]
    exact List.Perm.refl _
  · rw [touch_of_not_new hblock hnew, if_neg hnew]
    refine List.perm_middle.trans ?_
    rw [List.take_append_drop]

theorem holdings_touch_perm (s : CutSequence maxNew maxOld) (slot : Slot) :
    (s.touch slot).2.holdings.Perm s.holdings := by
  cases hblock : s.block? slot with
  | none =>
      rw [touch_of_not_mem (block?_eq_none_iff.mp hblock)]
  | some block =>
      have hmem := block?_eq_some_iff.mp hblock
      have hholding : holding (slot, s.counted slot block) = holding (slot, block) := by
        rw [holding, holding, key_counted, data_counted]
      have hmapped := (perm_cons_without s.nodup hmem).map holding
      rw [List.map_cons, <- hholding, <- List.map_cons] at hmapped
      exact ((items_touch_perm hmem).map holding).trans hmapped

def removeAll (s : CutSequence maxNew maxOld) (slots : List Slot) : CutSequence maxNew maxOld :=
  slots.foldl remove s

theorem items_removeAll (s : CutSequence maxNew maxOld) (slots : List Slot) :
    (s.removeAll slots).items = s.items.filter fun e => e.1 ∉ slots := by
  induction slots generalizing s with
  | nil => simp [removeAll]
  | cons slot slots ih =>
      have hremoved : s.removeAll (slot :: slots) = (s.remove slot).removeAll slots := rfl
      rw [hremoved, ih]
      exact filter_without slot slots s.items

theorem news_removeAll (s : CutSequence maxNew maxOld) (slots : List Slot) :
    (s.removeAll slots).zones.news = s.zones.news.filter fun e => e.1 ∉ slots := by
  induction slots generalizing s with
  | nil => simp [removeAll]
  | cons slot slots ih =>
      have hremoved : s.removeAll (slot :: slots) = (s.remove slot).removeAll slots := rfl
      rw [hremoved, ih, news_remove]
      exact filter_without slot slots s.zones.news

theorem mem_holdings_removeAll {held : Holding} {slots : List Slot} :
    held ∈ (s.removeAll slots).holdings <-> held ∈ s.holdings ∧ held.slot ∉ slots := by
  simp only [holdings, items_removeAll, List.mem_map, List.mem_filter, decide_eq_true_eq]
  constructor
  · rintro ⟨e, ⟨he, hne⟩, rfl⟩
    exact ⟨⟨e, he, rfl⟩, hne⟩
  · rintro ⟨⟨e, he, rfl⟩, hne⟩
    exact ⟨e, ⟨he, hne⟩, rfl⟩

structure Fits (s : CutSequence maxNew maxOld) (capacity : Nat) : Prop where
  length_le : s.items.length <= capacity
  slack : maxNew + s.items.length <= capacity + s.cut

variable {capacity : Nat}

theorem fits_empty (h : maxNew <= capacity) :
    (empty : CutSequence maxNew maxOld).Fits capacity where
  length_le := Nat.zero_le _
  slack := Nat.add_le_add h (Nat.zero_le _)

theorem Fits.push (h : s.Fits capacity) (hroom : s.items.length < capacity)
    (fresh : slot ∉ s.slots) : (s.push slot block fresh).Fits capacity where
  length_le := hroom
  slack := by
    have hslack := h.slack
    simp only [CutSequence.push, List.length_cons]
    omega

theorem Fits.touch (h : s.Fits capacity) (slot : Slot) : (s.touch slot).2.Fits capacity := by
  have hlength : (s.touch slot).2.items.length = s.items.length := by
    simpa [holdings] using (holdings_touch_perm s slot).length_eq
  constructor
  · rw [hlength]
    exact h.length_le
  · rw [hlength, cut_touch]
    exact h.slack

theorem Fits.remove (h : s.Fits capacity) (slot : Slot) : (s.remove slot).Fits capacity := by
  by_cases hslot : slot ∈ s.slots
  · have hlength : (s.remove slot).items.length + 1 = s.items.length :=
      length_without s.nodup hslot
    have hcut : s.cut <= (s.remove slot).cut + 1 := by
      simp only [CutSequence.remove]
      split <;> omega
    have hle := h.length_le
    have hslack := h.slack
    constructor <;> omega
  · rw [remove_of_not_mem hslot]
    exact h

theorem Fits.removeAll (h : s.Fits capacity) (slots : List Slot) :
    (s.removeAll slots).Fits capacity := by
  induction slots generalizing s with
  | nil => exact h
  | cons slot slots ih => exact ih (h.remove slot)

theorem Fits.cut_eq (h : s.Fits capacity) (hfull : s.items.length = capacity) :
    s.cut = maxNew := by
  have hslack := h.slack
  have hcut := s.cut_le_maxNew
  omega

end CutSequence
end BlockCache

import BlockCache.Proofs.RecencyList.Zones

/-!
# Operations on arranged lists

What inserting, touching and removing a block do to the segments of a list, before and
after rebalancing. Next to the thread, a list keeps its slots: the occupied ones hold the
blocks of the thread, and every other slot is free, once.
-/

namespace BlockCache

def without (slot : Slot) (items : List Item) : List Item :=
  items.filter fun e => e.1 ≠ slot

theorem without_append (slot : Slot) (as bs : List Item) :
    without slot (as ++ bs) = without slot as ++ without slot bs :=
  List.filter_append ..

theorem without_eq_self {slot : Slot} {items : List Item} (h : slot ∉ items.map Prod.fst) :
    without slot items = items := by
  apply List.filter_eq_self.mpr
  intro e he
  have hne : e.1 ≠ slot := by
    intro heq
    exact h (heq ▸ List.mem_map_of_mem he)
  simpa using hne

theorem without_middle {slot : Slot} {block : Block} {as bs : List Item}
    (h : ((as ++ (slot, block) :: bs).map Prod.fst).Nodup) :
    without slot (as ++ (slot, block) :: bs) = as ++ bs := by
  rw [List.map_append, List.map_cons, List.nodup_middle, List.nodup_cons, List.mem_append,
    not_or] at h
  have hself : without slot [(slot, block)] = [] := by
    simp [without]
  rw [<- List.singleton_append, without_append, without_append, hself,
    without_eq_self h.1.1, without_eq_self h.1.2, List.nil_append]

theorem mem_without {slot : Slot} {items : List Item} {e : Item} :
    e ∈ without slot items <-> e ∈ items ∧ e.1 ≠ slot := by
  simp only [without, List.mem_filter, decide_eq_true_eq]

theorem mem_map_fst_without {slot other : Slot} {items : List Item} :
    other ∈ (without slot items).map Prod.fst <-> other ∈ items.map Prod.fst ∧ other ≠ slot := by
  simp only [List.mem_map, mem_without]
  constructor
  · rintro ⟨e, ⟨he, hne⟩, rfl⟩
    exact ⟨⟨e, he, rfl⟩, hne⟩
  · rintro ⟨⟨e, he, rfl⟩, hne⟩
    exact ⟨e, ⟨he, hne⟩, rfl⟩

namespace Zones

def push (z : Zones) (slot : Slot) (block : Block) : Zones :=
  ⟨(slot, block) :: z.news, z.middles, z.olds⟩

def remove (z : Zones) (slot : Slot) : Zones :=
  ⟨without slot z.news, without slot z.middles, without slot z.olds⟩

def promote (z : Zones) (slot : Slot) (block : Block) : Zones :=
  ⟨z.news, (slot, block) :: z.middles, z.olds⟩

def zone (z : Zones) : Segment -> List Item
  | .new => z.news
  | .middle => z.middles
  | .old => z.olds

theorem mem_residents_iff {z : Zones} {r : Resident} :
    r ∈ z.residents <-> (r.slot, r.block) ∈ z.zone r.segment := by
  cases r with
  | mk slot block segment =>
      cases segment <;> simp [residents, tagged, zone]

theorem mem_map_residents_iff {z : Zones} {block : Block} {segment : Segment} :
    (block, segment) ∈ z.residents.map (fun r => (r.block, r.segment)) <->
      exists slot, (slot, block) ∈ z.zone segment := by
  rw [List.mem_map]
  constructor
  · intro hmem
    rcases hmem with ⟨r, hr, heq⟩
    cases heq
    exact ⟨r.slot, mem_residents_iff.mp hr⟩
  · intro hzone
    rcases hzone with ⟨slot, hzone⟩
    exact ⟨⟨slot, block, segment⟩, mem_residents_iff.mpr hzone, rfl⟩

theorem mem_items_iff {z : Zones} {e : Item} :
    e ∈ z.items <-> exists segment, e ∈ z.zone segment := by
  simp only [items, List.mem_append]
  constructor
  · rintro (h | h | h)
    · exact ⟨.new, h⟩
    · exact ⟨.middle, h⟩
    · exact ⟨.old, h⟩
  · rintro ⟨segment, h⟩
    cases segment with
    | new => exact .inl h
    | middle => exact .inr (.inl h)
    | old => exact .inr (.inr h)

theorem items_remove (z : Zones) (slot : Slot) : (z.remove slot).items = without slot z.items := by
  simp [items, remove, without_append]

def creditItems (slot : Slot) (items : List Item) : List Item :=
  items.map fun e => if e.1 = slot then (e.1, e.2.credit) else e

def creditAt (slot : Slot) (r : Resident) : Resident :=
  if r.slot = slot then { r with block := r.block.credit } else r

def credit (z : Zones) (slot : Slot) : Zones :=
  ⟨creditItems slot z.news, creditItems slot z.middles, creditItems slot z.olds⟩

theorem tagged_creditItems (segment : Segment) (slot : Slot) (items : List Item) :
    tagged segment (creditItems slot items) = (tagged segment items).map (creditAt slot) := by
  simp only [tagged, creditItems, List.map_map]
  apply List.map_congr_left
  intro e _
  simp only [Function.comp_apply, creditAt]
  split <;> rfl

theorem residents_credit (z : Zones) (slot : Slot) :
    (z.credit slot).residents = z.residents.map (creditAt slot) := by
  simp [residents, credit, tagged_creditItems]

theorem map_creditAt_eq_self {slot : Slot} {rs : List Resident}
    (h : slot ∉ RecencyList.slotsOf rs) : rs.map (creditAt slot) = rs := by
  nth_rewrite 2 [<- List.map_id rs]
  apply List.map_congr_left
  intro r hr
  have hne : r.slot ≠ slot := by
    intro heq
    exact h (heq ▸ List.mem_map_of_mem hr)
  simp [creditAt, hne]

theorem lastSlot_creditItems (segment : Segment) (slot : Slot) (items : List Item) :
    RecencyList.lastSlot (tagged segment (creditItems slot items)) =
      RecencyList.lastSlot (tagged segment items) := by
  rw [tagged_creditItems, RecencyList.lastSlot, RecencyList.lastSlot, List.getLast?_map,
    Option.map_map]
  congr 1
  funext r
  simp only [Function.comp_apply, creditAt]
  split <;> rfl

theorem firstSlot_creditItems (segment : Segment) (slot : Slot) (items : List Item) :
    RecencyList.firstSlot (tagged segment (creditItems slot items)) =
      RecencyList.firstSlot (tagged segment items) := by
  rw [tagged_creditItems, RecencyList.firstSlot, RecencyList.firstSlot, List.head?_map,
    Option.map_map]
  congr 1
  funext r
  simp only [Function.comp_apply, creditAt]
  split <;> rfl

theorem mem_credit {z : Zones} {slot : Slot} {block : Block} {segment : Segment}
    (h : (slot, block) ∈ z.zone segment) :
    (slot, block.credit) ∈ (z.credit slot).zone segment := by
  have hitems : forall items : List Item, (slot, block) ∈ items ->
      (slot, block.credit) ∈ creditItems slot items := by
    intro items hmem
    exact List.mem_map.mpr ⟨(slot, block), hmem, by simp⟩
  cases segment with
  | new => exact hitems z.news h
  | middle => exact hitems z.middles h
  | old => exact hitems z.olds h

theorem remove_credit (z : Zones) (slot : Slot) : (z.credit slot).remove slot = z.remove slot := by
  have hitems : forall items : List Item,
      without slot (creditItems slot items) = without slot items := by
    intro items
    induction items with
    | nil => rfl
    | cons e rest ih =>
        by_cases he : e.1 = slot
        · simpa [without, creditItems, he] using ih
        · simpa [without, creditItems, he] using ih
  simp [remove, credit, hitems]

theorem remove_eq {news middles olds : List Item}
    (hnodup : ((items ⟨news, middles, olds⟩).map Prod.fst).Nodup) (slot : Slot) :
    (slot ∈ news.map Prod.fst ->
        remove ⟨news, middles, olds⟩ slot = ⟨without slot news, middles, olds⟩) ∧
      (slot ∈ middles.map Prod.fst ->
        remove ⟨news, middles, olds⟩ slot = ⟨news, without slot middles, olds⟩) ∧
      (slot ∈ olds.map Prod.fst ->
        remove ⟨news, middles, olds⟩ slot = ⟨news, middles, without slot olds⟩) := by
  simp only [items, List.map_append, List.nodup_append, List.mem_append] at hnodup
  rcases hnodup with ⟨-, ⟨-, -, hmiddleOld⟩, hnew⟩
  refine ⟨fun hslot => ?_, fun hslot => ?_, fun hslot => ?_⟩
  · have hmiddles : slot ∉ middles.map Prod.fst := fun h => hnew slot hslot slot (.inl h) rfl
    have holds : slot ∉ olds.map Prod.fst := fun h => hnew slot hslot slot (.inr h) rfl
    rw [remove, without_eq_self hmiddles, without_eq_self holds]
  · have hnews : slot ∉ news.map Prod.fst := fun h => hnew slot h slot (.inl hslot) rfl
    have holds : slot ∉ olds.map Prod.fst := fun h => hmiddleOld slot hslot slot h rfl
    rw [remove, without_eq_self hnews, without_eq_self holds]
  · have hnews : slot ∉ news.map Prod.fst := fun h => hnew slot h slot (.inr hslot) rfl
    have hmiddles : slot ∉ middles.map Prod.fst := fun h => hmiddleOld slot h slot hslot rfl
    rw [remove, without_eq_self hnews, without_eq_self hmiddles]

end Zones

namespace RecencyList

variable {l l' : RecencyList} {z : Zones} {slot : Slot} {block : Block}

/-!
# Slots
-/

/-- The blocks are in `slots`, and all other slots that were ever made are free. -/
structure Stored (l : RecencyList) (slots : List Slot) : Prop where
  occupied : forall slot, (l.get? slot).isSome <-> slot ∈ slots
  free_nodup : l.free.Nodup
  mem_free : forall slot, slot ∈ l.free <-> slot < l.cells.size ∧ l.get? slot = none

theorem Stored.congr {slots slots' : List Slot} (h : Stored l slots) (harena : SameArena l l')
    (hslots : forall slot, slot ∈ slots' <-> slot ∈ slots) : Stored l' slots' where
  occupied slot := by
    rw [harena.occupied, h.occupied, hslots]
  free_nodup := harena.free ▸ h.free_nodup
  mem_free slot := by
    have hnone : l'.get? slot = none <-> l.get? slot = none := by
      rw [<- Option.not_isSome_iff_eq_none, <- Option.not_isSome_iff_eq_none, harena.occupied]
    rw [harena.free, harena.size, hnone, h.mem_free]

theorem Linked.get?_of_mem {rs : List Resident} {r : Resident} (h : Linked l rs)
    (hmem : r ∈ rs) : exists newer older, l.get? r.slot = some (r.entry newer older) := by
  rcases List.mem_iff_append.mp hmem with ⟨as, bs, rfl⟩
  exact ⟨_, _, h.get?_eq⟩

theorem Arranged.of_cell_eq {cell : Option Entry} (h : Arranged l z)
    (hfresh : slot ∉ z.items.map Prod.fst)
    (hget : forall other, l'.get? other = if other = slot then cell else l.get? other)
    (hnewest : l'.newest = l.newest) (holdest : l'.oldest = l.oldest)
    (hlastNew : l'.lastNew = l.lastNew) (hfirstOld : l'.firstOld = l.firstOld)
    (hsizes : l'.sizes = l.sizes) : Arranged l' z := by
  have hkept : forall other, other ∈ slotsOf z.residents -> l'.get? other = l.get? other := by
    intro other hother
    rw [Zones.slotsOf_residents] at hother
    rw [hget, if_neg]
    intro heq
    exact hfresh (heq ▸ hother)
  exact
    { linked :=
        { chained := chained_congr hkept h.linked.chained
          newest := hnewest.trans h.linked.newest
          oldest := holdest.trans h.linked.oldest
          nodup := h.linked.nodup }
      lastNew := hlastNew.trans h.lastNew
      firstOld := hfirstOld.trans h.firstOld
      sizes := hsizes.trans h.sizes }

theorem Arranged.get?_of_mem (h : Arranged l z) (segment : Segment)
    (hmem : (slot, block) ∈ z.zone segment) :
    exists newer older, l.get? slot = some ⟨block, segment, newer, older⟩ :=
  h.linked.get?_of_mem (r := ⟨slot, block, segment⟩) (Zones.mem_residents_iff.mpr hmem)

theorem Arranged.mem_of_get? {e : Entry} (h : Arranged l z)
    (hstored : Stored l (z.items.map Prod.fst)) (hget : l.get? slot = some e) :
    (slot, e.block) ∈ z.zone e.segment := by
  have hoccupied : slot ∈ z.items.map Prod.fst := by
    rw [<- hstored.occupied, hget]
    rfl
  rcases List.mem_map.mp hoccupied with ⟨⟨other, block⟩, hmem, rfl⟩
  rcases Zones.mem_items_iff.mp hmem with ⟨segment, hzone⟩
  rcases h.get?_of_mem segment hzone with ⟨newer, older, hfound⟩
  rw [hget] at hfound
  cases hfound
  exact hzone

/-!
# Allocation and release
-/

def detachedEntry (block : Block) : Entry :=
  { block := block, segment := .new, newer := none, older := none }

/-- The block has been stored in a slot that no other block has, outside the thread. -/
structure Allocated (l : RecencyList) (z : Zones) (block : Block) (slot : Slot)
    (l' : RecencyList) : Prop where
  fresh : slot ∉ z.items.map Prod.fst
  arranged : Arranged l' z
  stored : Stored l' (slot :: z.items.map Prod.fst)
  get?_eq : l'.get? slot = some (detachedEntry block)
  maxNew : l'.maxNew = l.maxNew
  maxOld : l'.maxOld = l.maxOld

theorem allocate_at_end (h : Arranged l z) (hstored : Stored l (z.items.map Prod.fst))
    (block : Block) (hfree : l.free = []) :
    Allocated l z block l.cells.size
      { l with cells := l.cells.push (some (detachedEntry block)) } := by
  have hget : forall slot, RecencyList.get?
      { l with cells := l.cells.push (some (detachedEntry block)) } slot =
      if slot = l.cells.size then some (detachedEntry block) else l.get? slot := by
    intro slot
    simp only [get?, Array.getElem?_push]
    split <;> rfl
  have hnew : l.get? l.cells.size = none := by
    simp [get?]
  have hfresh : l.cells.size ∉ z.items.map Prod.fst := by
    rw [<- hstored.occupied, hnew]
    simp
  refine ⟨hfresh, h.of_cell_eq hfresh hget rfl rfl rfl rfl rfl, ⟨?_, hstored.free_nodup, ?_⟩, ?_,
    rfl, rfl⟩
  · intro slot
    rw [hget, List.mem_cons, <- hstored.occupied]
    split <;> simp_all
  · intro slot
    have hold := hstored.mem_free slot
    rw [hget]
    simp only [hfree, List.not_mem_nil, false_iff, Array.size_push] at hold ⊢
    rintro ⟨hlt, hnone⟩
    split at hnone
    · cases hnone
    · rename_i hne
      exact hold ⟨Nat.lt_of_le_of_ne (Nat.le_of_lt_succ hlt) hne, hnone⟩
  · rw [hget, if_pos rfl]

theorem allocate_from_free {free : List Slot} (h : Arranged l z)
    (hstored : Stored l (z.items.map Prod.fst)) (block : Block) (hfree : l.free = slot :: free) :
    Allocated l z block slot
      { l with
        cells := l.cells.setIfInBounds slot (some (detachedEntry block))
        free := free } := by
  have hvacant := (hstored.mem_free slot).mp (by simp [hfree])
  have hget : forall other, RecencyList.get?
      { l with
        cells := l.cells.setIfInBounds slot (some (detachedEntry block))
        free := free } other =
      if other = slot then some (detachedEntry block) else l.get? other := by
    intro other
    simp only [get?, Array.getElem?_setIfInBounds]
    by_cases hother : other = slot
    · simp [hother, hvacant.1]
    · simp [hother, Ne.symm hother]
  have hfresh : slot ∉ z.items.map Prod.fst := by
    rw [<- hstored.occupied, hvacant.2]
    simp
  have hnodup := List.nodup_cons.mp (hfree ▸ hstored.free_nodup)
  refine ⟨hfresh, h.of_cell_eq hfresh hget rfl rfl rfl rfl rfl, ⟨?_, hnodup.2, ?_⟩, ?_, rfl, rfl⟩
  · intro other
    rw [hget, List.mem_cons, <- hstored.occupied]
    split <;> simp_all
  · intro other
    have hold := hstored.mem_free other
    rw [hget]
    simp only [hfree, List.mem_cons, Array.size_setIfInBounds] at hold ⊢
    split <;> simp_all
  · rw [hget, if_pos rfl]

theorem allocate_allocated (h : Arranged l z) (hstored : Stored l (z.items.map Prod.fst))
    (block : Block) :
    Allocated l z block (l.allocate block).1 (l.allocate block).2 := by
  cases hfree : l.free with
  | nil =>
      have hallocate : l.allocate block =
          (l.cells.size, { l with cells := l.cells.push (some (detachedEntry block)) }) := by
        simp [allocate, hfree, detachedEntry]
      rw [hallocate]
      exact allocate_at_end h hstored block hfree
  | cons slot free =>
      rw [allocate, hfree]
      exact allocate_from_free h hstored block hfree

theorem release_spec {slots : List Slot} (h : Arranged l z) (hstored : Stored l slots)
    (hslot : slot ∈ slots) (hfresh : slot ∉ z.items.map Prod.fst) :
    Arranged (l.release slot) z ∧ Stored (l.release slot) (slots.filter (· ≠ slot)) := by
  have hoccupied := (hstored.occupied slot).mpr hslot
  rcases Option.isSome_iff_exists.mp hoccupied with ⟨e, he⟩
  have hlt := lt_size_of_get? he
  have hget : forall other, (l.release slot).get? other =
      if other = slot then none else l.get? other := by
    intro other
    simp only [release, get?, Array.getElem?_setIfInBounds]
    by_cases hother : other = slot
    · simp [hother, hlt]
    · simp [hother, Ne.symm hother]
  refine ⟨h.of_cell_eq hfresh hget rfl rfl rfl rfl rfl, ?_, ?_, ?_⟩
  · intro other
    rw [hget, List.mem_filter, <- hstored.occupied]
    split <;> simp_all
  · refine List.nodup_cons.mpr ⟨?_, hstored.free_nodup⟩
    rw [hstored.mem_free, he]
    simp
  · intro other
    have hold := hstored.mem_free other
    rw [hget]
    simp only [release, List.mem_cons, Array.size_setIfInBounds] at hold ⊢
    split <;> simp_all

/-!
# Whole operations
-/

theorem settle_completes {α : Type} (h : Arranged l z) (value : α) :
    Completes (l.settle value) fun o =>
      o.value = value ∧ Arranged o.list (z.settled l.maxNew l.maxOld) ∧
        SameArena l o.list ∧ o.moves = z.moves l.maxNew l.maxOld := by
  refine (rebalance_completes h).bind ?_
  rintro ⟨balanced, moves⟩ ⟨harranged, harena, hmoves⟩
  exact Completes.pure ⟨rfl, harranged, harena, hmoves⟩

theorem push_completes (h : Arranged l z) (hstored : Stored l (z.items.map Prod.fst))
    (block : Block) :
    Completes (l.push block) fun o =>
      o.value ∉ z.items.map Prod.fst ∧
        Arranged o.list ((z.push o.value block).settled l.maxNew l.maxOld) ∧
        Stored o.list (o.value :: z.items.map Prod.fst) ∧
        o.list.maxNew = l.maxNew ∧ o.list.maxOld = l.maxOld ∧
        o.moves = (z.push o.value block).moves l.maxNew l.maxOld := by
  rcases allocate_allocated h hstored block with
    ⟨hfresh, harranged₁, hstored₁, hget₁, hmaxNew, hmaxOld⟩
  refine (enterNew_completes harranged₁ hfresh hget₁).bind fun l₂ h₂ => ?_
  rcases h₂ with ⟨harranged₂, harena₂⟩
  refine (settle_completes harranged₂ _).mono fun o ho => ?_
  rcases ho with ⟨hvalue, harranged₃, harena₃, hmoves⟩
  have harena := harena₂.trans harena₃
  rw [harena₂.maxNew, harena₂.maxOld, hmaxNew, hmaxOld] at harranged₃ hmoves
  rw [hvalue]
  exact ⟨hfresh, harranged₃, hstored₁.congr harena (fun _ => Iff.rfl),
    harena.maxNew.trans hmaxNew, harena.maxOld.trans hmaxOld, hmoves⟩

theorem detach_zone (h : Arranged l z) (segment : Segment)
    (hmem : (slot, block) ∈ z.zone segment) :
    Completes (l.detach slot) fun l' =>
      Arranged l' (z.remove slot) ∧ SameArena l l' ∧
        l'.get? slot = some ⟨block, segment, none, none⟩ := by
  have hnodup := h.nodup
  rcases z with ⟨news, middles, olds⟩
  have hremove := Zones.remove_eq hnodup slot
  simp only [Zones.items, List.map_append, List.nodup_append] at hnodup
  rcases List.mem_iff_append.mp hmem with ⟨as, bs, heq⟩
  cases segment with
  | new =>
      replace heq : news = as ++ (slot, block) :: bs := heq
      subst heq
      rw [hremove.1 (by simp), without_middle hnodup.1]
      exact detach_news h
  | middle =>
      replace heq : middles = as ++ (slot, block) :: bs := heq
      subst heq
      rw [hremove.2.1 (by simp), without_middle hnodup.2.1.1]
      exact detach_middles h
  | old =>
      replace heq : olds = as ++ (slot, block) :: bs := heq
      subst heq
      rw [hremove.2.2 (by simp), without_middle hnodup.2.1.2.1]
      exact detach_olds h

theorem slot_not_mem_remove (z : Zones) (slot : Slot) :
    slot ∉ (z.remove slot).items.map Prod.fst := by
  rw [Zones.items_remove, mem_map_fst_without]
  intro h
  exact h.2 rfl

theorem touch_of_vacant (h : l.get? slot = none) : l.touch slot = .ok ⟨false, l, []⟩ := by
  simp [touch, segment?, h]
  rfl

theorem Arranged.push_remove_newest (h : Arranged l z) (hmem : (slot, block) ∈ z.news)
    (hnewest : l.newest = some slot) : (z.remove slot).push slot block = z := by
  have hnodup := h.nodup
  rcases z with ⟨news, middles, olds⟩
  have hremove := (Zones.remove_eq hnodup slot).1 (List.mem_map_of_mem hmem)
  cases news with
  | nil => cases hmem
  | cons e rest =>
      have hslot : e.1 = slot := by
        have hfirst := h.linked.newest
        rw [hnewest] at hfirst
        simpa [Zones.residents] using hfirst.symm
      have heq : e = (slot, block) :=
        List.inj_on_of_nodup_map hnodup (by simp [Zones.items])
          (List.mem_append_left _ hmem) hslot
      subst heq
      simp only [Zones.items, List.map_append, List.nodup_append] at hnodup
      have hrest : without slot ([] ++ (slot, block) :: rest) = [] ++ rest :=
        without_middle hnodup.1
      rw [List.nil_append] at hrest
      rw [hremove, hrest]
      rfl

theorem touch_new_completes (h : Arranged l z) (hmem : (slot, block) ∈ z.news) :
    Completes (l.touch slot) fun o =>
      o.value = false ∧ SameArena l o.list ∧
        Arranged o.list (((z.remove slot).push slot block).settled l.maxNew l.maxOld) ∧
        o.moves = ((z.remove slot).push slot block).moves l.maxNew l.maxOld := by
  rcases h.get?_of_mem .new hmem with ⟨newer, older, hget⟩
  have hsegment : l.segment? slot = some .new := by
    simp [segment?, hget]
  unfold touch
  rw [hsegment]
  dsimp only
  split
  · rename_i hnewest
    refine (settle_completes h false).mono fun o ho => ?_
    rcases ho with ⟨hvalue, harranged, harena, hmoves⟩
    rw [h.push_remove_newest hmem hnewest]
    exact ⟨hvalue, harena, harranged, hmoves⟩
  · refine (detach_zone h .new hmem).bind fun l₁ h₁ => ?_
    rcases h₁ with ⟨harranged₁, harena₁, hget₁⟩
    have henter := enterNew_completes harranged₁ (slot_not_mem_remove z slot) hget₁
    refine henter.bind fun l₂ h₂ => ?_
    rcases h₂ with ⟨harranged₂, harena₂⟩
    refine (settle_completes harranged₂ false).mono fun o ho => ?_
    rcases ho with ⟨hvalue, harranged₃, harena₃, hmoves⟩
    have harena := harena₁.trans harena₂
    rw [harena.maxNew, harena.maxOld] at harranged₃ hmoves
    exact ⟨hvalue, harena.trans harena₃, harranged₃, hmoves⟩

theorem credit_completes (h : Arranged l z) (segment : Segment)
    (hmem : (slot, block) ∈ z.zone segment) :
    Completes (l.modify slot fun entry => { entry with block := entry.block.credit }) fun l' =>
      SameArena l l' ∧ Arranged l' (z.credit slot) := by
  have hresident : Resident.mk slot block segment ∈ z.residents :=
    Zones.mem_residents_iff.mpr hmem
  rcases List.mem_iff_append.mp hresident with ⟨as, bs, hz⟩
  rcases h.slot_not_mem hz with ⟨has, hbs⟩
  have hlinked : Linked l (as ++ ⟨slot, block, segment⟩ :: bs) := hz ▸ h.linked
  have hmodify : Completes (l.modify slot fun entry => { entry with block := entry.block.credit })
      fun l' => Linked l' (as ++ ⟨slot, block.credit, segment⟩ :: bs) ∧ Relinked l l' :=
    modify_completes hlinked (fun _ _ => rfl)
  refine hmodify.mono fun l' h' => ⟨h'.2.toSameArena, ?_, ?_, ?_, ?_⟩
  · rw [Zones.residents_credit, hz, List.map_append, List.map_cons,
      Zones.map_creditAt_eq_self has, Zones.map_creditAt_eq_self hbs]
    simpa [Zones.creditAt] using h'.1
  · rw [h'.2.lastNew, h.lastNew]
    exact (Zones.lastSlot_creditItems ..).symm
  · rw [h'.2.firstOld, h.firstOld]
    exact (Zones.firstSlot_creditItems ..).symm
  · rw [h'.2.sizes, h.sizes]
    simp [Zones.sizes, Zones.credit, Zones.creditItems]

theorem touch_credit_completes (h : Arranged l z) {segment : Segment}
    (hsegment : segment ≠ .new) (hmem : (slot, block) ∈ z.zone segment) :
    Completes (l.touch slot) fun o =>
      o.value = true ∧ SameArena l o.list ∧
        Arranged o.list
          (((z.remove slot).promote slot block.credit).settled l.maxNew l.maxOld) ∧
        o.moves = ((z.remove slot).promote slot block.credit).moves l.maxNew l.maxOld := by
  rcases h.get?_of_mem segment hmem with ⟨newer, older, hget⟩
  have htouch : l.touch slot = (do
      let l <- l.modify slot fun entry => { entry with block := entry.block.credit }
      let l <- l.detach slot
      let l <- l.enterMiddle slot
      l.settle true) := by
    have hfound : l.segment? slot = some segment := by
      simp [segment?, hget]
    unfold touch
    rw [hfound]
    cases segment with
    | new => exact absurd rfl hsegment
    | middle => rfl
    | old => rfl
  rw [htouch]
  refine (credit_completes h segment hmem).bind fun l₁ h₁ => ?_
  rcases h₁ with ⟨harena₁, harranged₁⟩
  have hdetach := detach_zone harranged₁ segment (Zones.mem_credit hmem)
  refine hdetach.bind fun l₂ h₂ => ?_
  rcases h₂ with ⟨harranged₂, harena₂, hget₂⟩
  rw [Zones.remove_credit] at harranged₂
  have henter := enterMiddle_completes harranged₂ (slot_not_mem_remove z slot) hget₂
  refine henter.bind fun l₃ h₃ => ?_
  rcases h₃ with ⟨harranged₃, harena₃⟩
  refine (settle_completes harranged₃ true).mono fun o ho => ?_
  rcases ho with ⟨hvalue, harranged₄, harena₄, hmoves⟩
  have harena := (harena₁.trans harena₂).trans harena₃
  rw [harena.maxNew, harena.maxOld] at harranged₄ hmoves
  exact ⟨hvalue, harena.trans harena₄, harranged₄, hmoves⟩

theorem remove_of_vacant (h : l.get? slot = none) : l.remove slot = .ok ⟨none, l, []⟩ := by
  simp [remove, block?, h]
  rfl

theorem remove_completes (h : Arranged l z) (hstored : Stored l (z.items.map Prod.fst))
    {segment : Segment} (hmem : (slot, block) ∈ z.zone segment) :
    Completes (l.remove slot) fun o =>
      o.value = some block ∧
        Arranged o.list ((z.remove slot).settled l.maxNew l.maxOld) ∧
        Stored o.list ((z.remove slot).items.map Prod.fst) ∧
        o.list.maxNew = l.maxNew ∧ o.list.maxOld = l.maxOld ∧
        o.moves = (z.remove slot).moves l.maxNew l.maxOld := by
  rcases h.get?_of_mem segment hmem with ⟨newer, older, hget⟩
  have hblock : l.block? slot = some block := by
    simp [block?, hget]
  have hslot : slot ∈ z.items.map Prod.fst :=
    List.mem_map_of_mem (Zones.mem_items_iff.mpr ⟨segment, hmem⟩)
  unfold remove
  rw [hblock]
  refine (detach_zone h segment hmem).bind fun l₁ h₁ => ?_
  rcases h₁ with ⟨harranged₁, harena₁, -⟩
  have hstored₁ := hstored.congr harena₁ (fun _ => Iff.rfl)
  rcases release_spec harranged₁ hstored₁ hslot (slot_not_mem_remove z slot) with
    ⟨harranged₂, hstored₂⟩
  refine (settle_completes harranged₂ (some block)).mono fun o ho => ?_
  rcases ho with ⟨hvalue, harranged₃, harena₃, hmoves⟩
  have hmaxNew : (l₁.release slot).maxNew = l.maxNew := harena₁.maxNew
  have hmaxOld : (l₁.release slot).maxOld = l.maxOld := harena₁.maxOld
  rw [hmaxNew, hmaxOld] at harranged₃ hmoves
  refine ⟨hvalue, harranged₃, ?_, harena₃.maxNew.trans hmaxNew, harena₃.maxOld.trans hmaxOld,
    hmoves⟩
  refine hstored₂.congr harena₃ fun other => ?_
  rw [Zones.items_remove, mem_map_fst_without, List.mem_filter]
  simp

end RecencyList
end BlockCache

import BlockCache.Proofs.Cache.Equivalence

/-!
# What is left when a file is dropped

The blocks of a file are taken out one at a time, from anywhere in the list, and the bounds
are settled after each. In the end every other block is where it was: in the same order and
with the same data and counter, New if it was New before, and Old if it is one of the last
blocks that Old has room for.
-/

namespace BlockCache

namespace Zones

def filter (p : Item -> Bool) (z : Zones) : Zones :=
  ⟨z.news.filter p, z.middles.filter p, z.olds.filter p⟩

theorem items_filter (p : Item -> Bool) (z : Zones) : (z.filter p).items = z.items.filter p := by
  simp [filter, items]

theorem residents_filter (p : Item -> Bool) (z : Zones) :
    (z.filter p).residents = z.residents.filter fun r => p (r.slot, r.block) := by
  simp [filter, residents, tagged, List.filter_map, Function.comp_def]

theorem length_residents (z : Zones) : z.residents.length = z.items.length := by
  rw [<- map_residents, List.length_map]

theorem length_items (z : Zones) :
    z.items.length = z.news.length + z.middles.length + z.olds.length := by
  simp [items, Nat.add_assoc]

theorem map_segment_residents (z : Zones) :
    z.residents.map Resident.segment =
      List.replicate z.news.length .new ++
        (List.replicate z.middles.length .middle ++ List.replicate z.olds.length .old) := by
  simp [residents, tagged, Function.comp_def, List.map_const']

theorem countP_new_residents (z : Zones) :
    z.residents.countP (fun r => r.segment = .new) = z.news.length := by
  simp [residents, tagged, List.countP_map, Function.comp_def]

variable {z : Zones} {i : Nat} {r : Resident}

theorem segment_of_getElem? (h : z.residents[i]? = some r) :
    r.segment =
      if i < z.news.length then .new
      else if i < z.news.length + z.middles.length then .middle
      else .old := by
  have hsegment : (z.residents.map Resident.segment)[i]? = some r.segment := by
    rw [List.getElem?_map, h]
    rfl
  rw [map_segment_residents] at hsegment
  grind

theorem segment_eq_new_iff (h : z.residents[i]? = some r) :
    r.segment = .new <-> i < z.news.length := by
  rw [segment_of_getElem? h]
  grind

theorem segment_eq_old_iff (h : z.residents[i]? = some r) :
    r.segment = .old <-> z.news.length + z.middles.length <= i := by
  rw [segment_of_getElem? h]
  grind

end Zones

def survivors (fd : FileDescriptor) (before : List Resident) : List Resident :=
  before.filter fun r => r.block.fd ≠ fd

/-- How many blocks are Old when as many of the last as there is room for are, of those not New. -/
def oldRoom (maxOld : Nat) (rs : List Resident) : Nat :=
  min maxOld (rs.length - rs.countP fun r => r.segment = .new)

/-- The list `after` is the list `before` without the blocks of `fd`. -/
structure FileTakenOut (maxOld : Nat) (fd : FileDescriptor) (before after : List Resident) :
    Prop where
  kept : after.map (fun r => (r.slot, r.block)) =
    (survivors fd before).map fun r => (r.slot, r.block)
  new : forall (i : Nat) (r r' : Resident),
    (survivors fd before)[i]? = some r -> after[i]? = some r' ->
      (r'.segment = .new <-> r.segment = .new)
  old : forall (i : Nat) (r' : Resident), after[i]? = some r' ->
    (r'.segment = .old <-> after.length - oldRoom maxOld (survivors fd before) <= i)
  moved : forall (i : Nat) (r r' : Resident),
    (survivors fd before)[i]? = some r -> after[i]? = some r' ->
      r'.segment = r.segment ∨ r.segment = .middle ∧ r'.segment = .old

theorem Zones.fileTakenOut {z z' : Zones} {maxOld : Nat} {fd : FileDescriptor}
    (hitems : z'.items = z.items.filter fun e => e.2.fd ≠ fd)
    (hnews : z'.news = z.news.filter fun e => e.2.fd ≠ fd)
    (holds : z'.olds.length = min maxOld (z'.items.length - z'.news.length))
    (hmaxOld : z.olds.length <= maxOld) :
    FileTakenOut maxOld fd z.residents z'.residents := by
  let rest := z.filter fun e => e.2.fd ≠ fd
  have hrest : survivors fd z.residents = rest.residents :=
    (z.residents_filter fun e => e.2.fd ≠ fd).symm
  have hrestItems : rest.items = z'.items :=
    (z.items_filter fun e => e.2.fd ≠ fd).trans hitems.symm
  have hrestNews : rest.news.length = z'.news.length := congrArg List.length hnews.symm
  have hlength := z'.length_items
  have hrestLength := rest.length_items
  rw [hrestItems] at hrestLength
  have hfewer : rest.olds.length <= z.olds.length := List.length_filter_le _ _
  constructor
  · rw [hrest, Zones.map_residents, Zones.map_residents, hrestItems]
  · intro i r r' hr hr'
    rw [hrest] at hr
    rw [Zones.segment_eq_new_iff hr, Zones.segment_eq_new_iff hr', hrestNews]
  · intro i r' hr'
    have hroom : oldRoom maxOld (survivors fd z.residents) = z'.olds.length := by
      rw [hrest, oldRoom, Zones.countP_new_residents, Zones.length_residents, hrestItems,
        hrestNews, holds]
    rw [hroom, Zones.segment_eq_old_iff hr', Zones.length_residents]
    omega
  · intro i r r' hr hr'
    rw [hrest] at hr
    have hgrown : z'.news.length + z'.middles.length <=
        rest.news.length + rest.middles.length := by
      omega
    rw [Zones.segment_of_getElem? hr, Zones.segment_of_getElem? hr']
    grind

def RecencyList.residents (l : RecencyList) : Except Corruption (List Resident) :=
  l.entries.map (List.map fun e => ⟨e.1, e.2.block, e.2.segment⟩)

theorem RecencyList.Represents.residents_eq {maxNew maxOld : Nat} {l : RecencyList}
    {s : CutSequence maxNew maxOld} (h : Represents l s) : l.residents = .ok s.zones.residents := by
  rcases h.shows.entries with ⟨entries, hentries, hshown⟩
  rw [residents, hentries, <- hshown]
  rfl

theorem Index.slotsOf?_eraseFile (index : Index) (fd : FileDescriptor) :
    (index.eraseFile fd).slotsOf? fd = none := by
  simp [slotsOf?, eraseFile]

namespace Cache

variable {σ : Type} {config : Config} {c : Cache σ} {s s' : Contents config}
  {fd : FileDescriptor} {step : Step σ Nat}

theorem Invalidated.fileTakenOut (h : Invalidated c s fd step s') :
    FileTakenOut config.maxOld.toNat fd s.zones.residents s'.zones.residents := by
  rcases h.selects with ⟨slots, hselects, rfl⟩
  have hkeeps : forall items : List Item, (forall e, e ∈ items -> e ∈ s.items) ->
      items.filter (fun e => e.1 ∉ slots) = items.filter fun e => e.2.fd ≠ fd := by
    intro items hitems
    rw [hselects.filter_items hitems]
    simp only [decide_not]
    rfl
  apply Zones.fileTakenOut
  · rw [CutSequence.items_zones, CutSequence.items_zones, CutSequence.items_removeAll]
    exact hkeeps s.items fun _ he => he
  · rw [CutSequence.news_removeAll]
    apply hkeeps
    intro e he
    have hnew : e ∈ s.zones.zone .new := he
    exact CutSequence.mem_items_of_zone hnew
  · rw [CutSequence.length_olds_zones, CutSequence.items_zones, CutSequence.length_news_zones]
  · rw [CutSequence.length_olds_zones]
    exact Nat.min_le_left _ _

theorem Invalidated.value_eq (h : Invalidated c s fd step s') :
    step.value = s.zones.residents.countP fun r => r.block.fd = fd := by
  rcases h.selects with ⟨slots, hselects, hs'⟩
  have hcount := h.count_eq
  rw [hs'] at hcount
  rw [hselects.length_eq hcount, CutSequence.keys, <- s.items_zones, <- Zones.map_residents,
    List.map_map, <- List.countP_eq_length_filter, List.countP_map]
  rfl

theorem Invalidated.rest_kept (h : Invalidated c s fd step s') :
    step.cache.config = c.config ∧ step.cache.source = c.source ∧
      step.cache.stats = c.stats := by
  cases h with
  | absent _ | dropped _ _ => exact ⟨rfl, rfl, rfl⟩

theorem invalidate_again {order : SlotOrder} (h : c.invalidate fd order = .ok step)
    (order' : SlotOrder) : step.cache.invalidate fd order' = .ok ⟨0, step.cache, []⟩ := by
  unfold invalidate at h
  cases hslots : c.index.slotsOf? fd with
  | none =>
      rw [hslots] at h
      cases h
      rw [invalidate, hslots]
  | some slots =>
      rw [hslots] at h
      rcases exists_of_bind_eq_ok h with ⟨removed, -, hstep⟩
      cases hstep
      rw [invalidate, Index.slotsOf?_eraseFile]

theorem Coherent.find?_eq_some_iff_residents (h : Coherent config c s) {key : BlockKey}
    {slot : Slot} :
    c.index.find? key = some slot <->
      exists r, r ∈ s.zones.residents ∧ r.slot = slot ∧ r.block.key = key := by
  rw [h.find?_eq_some_iff, <- s.items_zones, <- Zones.map_residents]
  constructor
  · intro hfound
    rcases hfound with ⟨block, hmem, hkey⟩
    rcases List.mem_map.mp hmem with ⟨r, hr, hitem⟩
    cases hitem
    exact ⟨r, hr, rfl, hkey⟩
  · intro hresident
    rcases hresident with ⟨r, hr, hslot, hkey⟩
    rw [<- hslot]
    exact ⟨r.block, List.mem_map.mpr ⟨r, hr, rfl⟩, hkey⟩

/--
Dropping a file takes out its blocks and answers how many there were. In whatever order they
go, the other blocks are left as they were, in the list and in the index, and Old is filled
up from Middle. To drop the file once more changes nothing.
-/
theorem invalidate_takes_out [BlockSource σ] (hreachable : Reachable config c)
    (fd : FileDescriptor) (order : SlotOrder) :
    Completes (c.invalidate fd order) fun step =>
      Completes c.list.residents fun before =>
        Completes step.cache.list.residents fun after =>
          step.value = before.countP (fun r => r.block.fd = fd) ∧
            FileTakenOut config.maxOld.toNat fd before after ∧
            (forall key slot, step.cache.index.find? key = some slot <->
              exists r, r ∈ after ∧ r.slot = slot ∧ r.block.key = key) ∧
            step.cache.stats = c.stats ∧ step.cache.source = c.source ∧
            forall order', step.cache.invalidate fd order' = .ok ⟨0, step.cache, []⟩ := by
  rcases hreachable.coherent with ⟨-, s, h⟩
  rcases invalidate_completes h fd order with ⟨step, hstep, s', hdropped, h'⟩
  rcases hdropped.rest_kept with ⟨-, hsource, hstats⟩
  exact ⟨step, hstep, _, h.represents.residents_eq, _, h'.represents.residents_eq,
    hdropped.value_eq, hdropped.fileTakenOut, fun _ _ => h'.find?_eq_some_iff_residents, hstats,
    hsource, invalidate_again hstep⟩

theorem invalidate_takes_out_old :
    exists c : Cache MemoryFiles, Reachable threeBlocks c ∧
      c.segment? ⟨6⟩ ⟨0⟩ = some .middle ∧
      Completes (c.invalidate ⟨5⟩ .reversed) fun step =>
        step.value = 1 ∧ step.cache.segment? ⟨6⟩ ⟨0⟩ = some .old ∧
          Completes c.list.residents fun before =>
            Completes step.cache.list.residents fun after =>
              FileTakenOut threeBlocks.maxOld.toNat ⟨5⟩ before after := by
  have hrun : Completes (create threeBlocks (eightBytes.put ⟨6⟩ (.stored [1, 2, 3, 4])))
      fun created =>
        Completes (created.cache.perform (.read ⟨5⟩ ⟨0⟩ [0])) fun first =>
          Completes (first.cache.perform (.read ⟨6⟩ ⟨0⟩ [0, 0, 0, 0])) fun second =>
            Completes (second.cache.invalidate ⟨5⟩ .reversed) fun step =>
              second.cache.segment? ⟨6⟩ ⟨0⟩ = some .middle ∧ step.value = 1 ∧
                step.cache.segment? ⟨6⟩ ⟨0⟩ = some .old :=
    ⟨_, rfl, _, rfl, _, rfl, _, rfl, rfl, rfl, rfl⟩
  rcases hrun with ⟨created, hcreate, first, hfirst, second, hsecond, step, hstep, hmiddle, hone,
    hold⟩
  have hreachable := ((Reachable.created hcreate).performed hfirst).performed hsecond
  rcases (invalidate_takes_out hreachable ⟨5⟩ .reversed).of_eq hstep with
    ⟨before, hbefore, after, hafter, -, htaken, -⟩
  exact ⟨second.cache, hreachable, hmiddle, step, hstep, hone, hold, before, hbefore, after, hafter,
    htaken⟩

end Cache
end BlockCache

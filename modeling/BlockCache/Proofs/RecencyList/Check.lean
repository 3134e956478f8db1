import BlockCache.Proofs.RecencyList.Refinement
import BlockCache.RecencyList.Check

/-!
# The check finds no defect

A list that stands for a sequence with one cut passes every test of the check: the links
back, the order of segments, the boundaries, the counts and the use of slots.
-/

namespace BlockCache
namespace RecencyList

variable {l : RecencyList} {maxNew maxOld : Nat} {s : CutSequence maxNew maxOld}

theorem survey_cons {newer : Option Slot} {reached : Segment} {limit : Nat} {slot : Slot}
    {e : Entry} {rest : List (Slot × Entry)} (h : l.get? slot = some e) (hnewer : e.newer = newer)
    (hrank : reached.rank <= e.segment.rank)
    (hrest : l.survey limit (some slot) e.segment e.older = .ok rest) :
    l.survey (limit + 1) newer reached (some slot) = .ok ((slot, e) :: rest) := by
  have hcell : l.cells[slot]? = some (some e) := Option.join_eq_some_iff.mp h
  rw [survey]
  simp only [hcell, if_neg (not_not_intro hnewer), if_neg (Nat.not_lt.mpr hrank), hrest, Except.map]

theorem survey_eq {newer : Option Slot} {reached : Segment} {rs : List Resident} {limit : Nat}
    (h : Chained l.get? newer rs none)
    (hreached : forall r, r ∈ rs -> reached.rank <= r.segment.rank)
    (hsorted : rs.Pairwise fun a b => a.segment.rank <= b.segment.rank)
    (hlimit : rs.length <= limit) :
    l.survey limit newer reached (firstSlot rs) = .ok (entriesOf newer rs none) := by
  induction rs generalizing newer reached limit with
  | nil => cases limit <;> rfl
  | cons r rs ih =>
      rcases List.pairwise_cons.mp hsorted with ⟨hhead, htail⟩
      cases limit with
      | zero => cases hlimit
      | succ limit =>
          have hrest := ih h.2 hhead htail (Nat.le_of_succ_le_succ hlimit)
          refine survey_cons h.1 rfl (hreached r List.mem_cons_self) ?_
          rw [Option.or_none]
          exact hrest

theorem pairwise_residents (z : Zones) :
    z.residents.Pairwise fun a b => a.segment.rank <= b.segment.rank := by
  have htagged : forall segment items,
      (Zones.tagged segment items).Pairwise fun a b => a.segment.rank <= b.segment.rank := by
    intro segment items
    rw [Zones.tagged, List.pairwise_map]
    exact List.pairwise_of_forall fun _ _ => Nat.le_refl _
  have hsegment : forall segment items r,
      r ∈ Zones.tagged segment items -> r.segment = segment := by
    intro segment items r hr
    rcases List.mem_map.mp hr with ⟨e, -, rfl⟩
    rfl
  simp only [Zones.residents, List.pairwise_append, List.mem_append, htagged, true_and]
  constructor
  · intro a ha b hb
    rw [hsegment _ _ a ha, hsegment _ _ b hb]
    decide
  · rintro a ha b (hb | hb)
    · rw [hsegment _ _ a ha, hsegment _ _ b hb]
      decide
    · rw [hsegment _ _ a ha, hsegment _ _ b hb]
      decide

end RecencyList

theorem SegmentSizes.foldl_enter (sizes : SegmentSizes) (segments : List Segment) :
    segments.foldl enter sizes =
      { new := sizes.new + segments.count .new
        middle := sizes.middle + segments.count .middle
        old := sizes.old + segments.count .old } := by
  induction segments generalizing sizes with
  | nil => simp
  | cons segment segments ih =>
      rw [List.foldl_cons, ih]
      cases segment <;> simp [enter, Nat.add_assoc, Nat.add_comm 1]

namespace RecencyList

theorem ofSegments_residents (z : Zones) :
    SegmentSizes.ofSegments (z.residents.map Resident.segment) = z.sizes := by
  have hcount : forall segment other items,
      ((Zones.tagged segment items).map Resident.segment).count other =
        if segment = other then items.length else 0 := by
    intro segment other items
    simp [Zones.tagged, Function.comp_def, List.map_const', List.count_replicate]
  rw [SegmentSizes.ofSegments, SegmentSizes.foldl_enter]
  simp [Zones.residents, hcount, Zones.sizes]

theorem slotsIn_entriesOf (segment : Segment) (newer older : Option Slot) (rs : List Resident) :
    slotsIn segment (entriesOf newer rs older) =
      slotsOf (rs.filter fun r => r.segment = segment) := by
  induction rs generalizing newer with
  | nil => rfl
  | cons r rs ih =>
      have ih' := ih (some r.slot)
      rw [slotsIn] at ih' ⊢
      by_cases hsegment : r.segment = segment
      · simpa [entriesOf, Resident.entry, hsegment] using ih'
      · simpa [entriesOf, Resident.entry, hsegment] using ih'

theorem slotsIn_residents (z : Zones) (segment : Segment) (newer older : Option Slot) :
    slotsIn segment (entriesOf newer z.residents older) = (z.zone segment).map Prod.fst := by
  rw [slotsIn_entriesOf]
  have hfilter : forall other items,
      (Zones.tagged other items).filter (fun r => r.segment = segment) =
        if other = segment then Zones.tagged other items else [] := by
    intro other items
    by_cases hother : other = segment <;>
      simp [Zones.tagged, List.filter_map, Function.comp_def, hother]
  cases segment <;> simp [Zones.residents, hfilter, Zones.zone]

theorem occupied_eq_countP (l : RecencyList) :
    l.occupied = (List.range l.cells.size).countP fun slot => (l.get? slot).isSome := by
  have hcells : l.cells.toList.map some =
      (List.range l.cells.size).map fun slot => l.cells.toList[slot]? := by
    apply List.ext_getElem?
    intro slot
    by_cases hslot : slot < l.cells.size <;> simp [hslot]
  calc l.occupied = l.cells.toList.countP Option.isSome := by
        rw [occupied, Array.countP_toList]
    _ = (l.cells.toList.map some).countP fun cell => cell.join.isSome := by
        rw [List.countP_map]
        rfl
    _ = (List.range l.cells.size).countP fun slot => (l.get? slot).isSome := by
        rw [hcells, List.countP_map]
        simp [Function.comp_def, get?]

theorem Stored.occupied_eq {slots : List Slot} (h : Stored l slots) (hnodup : slots.Nodup) :
    l.occupied = slots.length := by
  rw [occupied_eq_countP, List.countP_eq_length_filter]
  apply List.Perm.length_eq
  rw [List.perm_ext_iff_of_nodup (List.nodup_range.filter _) hnodup]
  intro slot
  rw [List.mem_filter, List.mem_range, h.occupied]
  constructor
  · exact fun hslot => hslot.2
  · intro hslot
    rcases Option.isSome_iff_exists.mp ((h.occupied slot).mpr hslot) with ⟨e, he⟩
    exact ⟨lt_size_of_get? he, hslot⟩

theorem Stored.length_free {slots : List Slot} (h : Stored l slots) :
    l.occupied + l.free.length = l.cells.size := by
  have hfree : l.free.length = (List.range l.cells.size).countP fun slot =>
      decide ¬ (l.get? slot).isSome = true := by
    rw [List.countP_eq_length_filter]
    apply List.Perm.length_eq
    rw [List.perm_ext_iff_of_nodup h.free_nodup (List.nodup_range.filter _)]
    intro slot
    rw [h.mem_free, List.mem_filter, List.mem_range]
    simp
  rw [hfree, occupied_eq_countP, <- List.length_eq_countP_add_countP, List.length_range]

theorem Represents.survey_residents (h : Represents l s) :
    l.survey l.cells.size none .new l.newest = .ok (entriesOf none s.zones.residents none) := by
  have hlimit : s.zones.residents.length <= l.cells.size := by
    rw [<- h.stored.length_free, h.stored.occupied_eq s.nodup, CutSequence.slots, List.length_map,
      <- s.items_zones, <- Zones.map_residents, List.length_map]
    exact Nat.le_add_right _ _
  rw [h.arranged.linked.newest]
  exact survey_eq h.arranged.linked.chained (fun _ _ => Nat.zero_le _)
    (pairwise_residents s.zones) hlimit

theorem Represents.defectOf?_residents (h : Represents l s) :
    l.defectOf? (entriesOf none s.zones.residents none) = none := by
  have hslots : (entriesOf none s.zones.residents none).map Prod.fst = slotsOf s.zones.residents :=
    map_entriesOf (fun _ _ _ => rfl) _ _ _
  have hsegments : (entriesOf none s.zones.residents none).map (fun e => e.2.segment) =
      s.zones.residents.map Resident.segment :=
    map_entriesOf (fun _ _ _ => rfl) _ _ _
  have hsizes : SegmentSizes.ofSegments
      ((entriesOf none s.zones.residents none).map fun e => e.2.segment) = l.sizes := by
    rw [hsegments, ofSegments_residents, h.arranged.sizes]
  have hoccupied : l.occupied = l.sizes.total := by
    rw [h.stored.occupied_eq s.nodup, <- length, h.arranged.length_eq, s.items_zones]
    simp [CutSequence.slots]
  have hlastNew : l.lastNew = ((s.zones.zone .new).map Prod.fst).getLast? := by
    rw [h.arranged.lastNew, lastSlot, <- List.getLast?_map, <- Zones.slotsOf_tagged .new]
    rfl
  have hfirstOld : l.firstOld = ((s.zones.zone .old).map Prod.fst).head? := by
    rw [h.arranged.firstOld, firstSlot, <- List.head?_map, <- Zones.slotsOf_tagged .old]
    rfl
  have holdest : l.oldest = (slotsOf s.zones.residents).getLast? := by
    rw [h.arranged.linked.oldest, lastSlot, <- List.getLast?_map]
    rfl
  have hnew : l.sizes.new <= l.maxNew := h.maxNew_eq ▸ h.new_le
  have hold : l.sizes.old <= l.maxOld := h.maxOld_eq ▸ h.old_le
  simp only [defectOf?, hsizes, hslots, slotsIn_residents]
  rw [if_neg (not_not_intro holdest), if_neg (not_not_intro rfl), if_neg (not_not_intro hlastNew),
    if_neg (not_not_intro hfirstOld), if_neg, if_neg]
  · rintro (hne | hne)
    · exact hne hoccupied
    · exact hne h.stored.length_free
  · rintro (hlt | hlt)
    · exact Nat.not_lt.mpr hnew hlt
    · exact Nat.not_lt.mpr hold hlt

theorem Represents.defect?_eq_none (h : Represents l s) : l.defect? = none := by
  rw [defect?, h.survey_residents]
  exact h.defectOf?_residents

end RecencyList
end BlockCache

import BlockCache.Proofs.RecencyList.CutSequence

/-!
# Recency lists as sequences with one cut

Whatever is done to a recency list, its links, boundaries, counts and slots stand for a
sequence with one cut, and every operation does to the list what it does to the sequence.
No operation ever stops, whatever the bounds are and whatever slots it is given.
-/

namespace BlockCache
namespace RecencyList

variable {l : RecencyList} {maxNew maxOld : Nat} {s : CutSequence maxNew maxOld}

/-- The thread of `l` is the sequence `s`, and its cells hold the blocks of `s` and no others. -/
structure Represents (l : RecencyList) (s : CutSequence maxNew maxOld) : Prop where
  arranged : Arranged l s.zones
  stored : Stored l s.slots
  maxNew_eq : l.maxNew = maxNew
  maxOld_eq : l.maxOld = maxOld

theorem represents_empty (maxNew maxOld : Nat) :
    Represents (empty maxNew maxOld) (.empty : CutSequence maxNew maxOld) where
  arranged := by
    rw [CutSequence.zones_empty]
    exact ⟨⟨trivial, rfl, rfl, List.nodup_nil⟩, rfl, rfl, rfl⟩
  stored :=
    { occupied := by simp [get?, empty, CutSequence.slots, CutSequence.empty]
      free_nodup := List.nodup_nil
      mem_free := by simp [get?, empty] }
  maxNew_eq := rfl
  maxOld_eq := rfl

theorem Represents.stored_zones (h : Represents l s) :
    Stored l (s.zones.items.map Prod.fst) := by
  rw [s.items_zones]
  exact h.stored

theorem Represents.get?_eq_none_iff (h : Represents l s) {slot : Slot} :
    l.get? slot = none <-> slot ∉ s.slots := by
  rw [<- h.stored.occupied, Bool.not_eq_true, Option.isSome_eq_false_iff, Option.isNone_iff_eq_none]

theorem Represents.mem_zone (h : Represents l s) {slot : Slot} {e : Entry}
    (hget : l.get? slot = some e) : (slot, e.block) ∈ s.zones.zone e.segment :=
  h.arranged.mem_of_get? h.stored_zones hget

theorem Represents.mem_news_of_newSlots (h : Represents l s) {slot : Slot} {e : Entry}
    (hnew : slot ∈ s.newSlots) (hget : l.get? slot = some e) : (slot, e.block) ∈ s.zones.news := by
  rcases List.mem_map.mp hnew with ⟨⟨_, block⟩, hmem, rfl⟩
  rcases h.arranged.get?_of_mem .new hmem with ⟨_, _, hfound⟩
  rw [hget] at hfound
  cases hfound
  exact hmem

theorem Represents.block?_eq (h : Represents l s) (slot : Slot) :
    l.block? slot = s.block? slot := by
  cases hget : l.get? slot with
  | none =>
      rw [CutSequence.block?_eq_none_iff.mpr (h.get?_eq_none_iff.mp hget), block?, hget]
      rfl
  | some e =>
      have hmem : (slot, e.block) ∈ s.items := by
        rw [<- s.items_zones]
        exact Zones.mem_items_iff.mpr ⟨e.segment, h.mem_zone hget⟩
      rw [CutSequence.block?_eq_some_iff.mpr hmem, block?, hget]
      rfl

theorem Represents.new_le (h : Represents l s) : l.sizes.new <= maxNew := by
  rw [h.arranged.sizes]
  exact Nat.le_trans (Nat.le_of_eq s.length_news_zones) s.cut_le_maxNew

theorem Represents.old_le (h : Represents l s) : l.sizes.old <= maxOld := by
  rw [h.arranged.sizes]
  exact Nat.le_trans (Nat.le_of_eq s.length_olds_zones) (Nat.min_le_left _ _)

theorem Represents.of_settled {s' : CutSequence maxNew maxOld} {l' : RecencyList} {z : Zones}
    (h : Represents l s) (hzones : s'.zones = z.settled maxNew maxOld)
    (harranged : Arranged l' (z.settled l.maxNew l.maxOld)) (hstored : Stored l' s'.slots)
    (hmaxNew : l'.maxNew = l.maxNew) (hmaxOld : l'.maxOld = l.maxOld) : Represents l' s' where
  arranged := by
    rw [hzones, <- h.maxNew_eq, <- h.maxOld_eq]
    exact harranged
  stored := hstored
  maxNew_eq := hmaxNew.trans h.maxNew_eq
  maxOld_eq := hmaxOld.trans h.maxOld_eq

theorem Represents.push_completes (h : Represents l s) (block : Block) :
    Completes (l.push block) fun o =>
      exists fresh : o.value ∉ s.slots, Represents o.list (s.push o.value block fresh) := by
  refine (RecencyList.push_completes h.arranged h.stored_zones block).mono ?_
  rintro o ⟨hfresh, harranged, hstored, hmaxNew, hmaxOld, -⟩
  rw [s.items_zones] at hfresh hstored
  exact ⟨hfresh, h.of_settled (s.zones_push o.value block hfresh) harranged hstored hmaxNew hmaxOld⟩

theorem Represents.touch_completes (h : Represents l s) (slot : Slot) :
    Completes (l.touch slot) fun o =>
      o.value = (s.touch slot).1 ∧ Represents o.list (s.touch slot).2 := by
  cases hget : l.get? slot with
  | none =>
      rw [touch_of_vacant hget, CutSequence.touch_of_not_mem (h.get?_eq_none_iff.mp hget)]
      exact Completes.ok ⟨rfl, h⟩
  | some e =>
      have hmem := h.mem_zone hget
      have hblock : s.block? slot = some e.block := by
        rw [<- h.block?_eq, block?, hget]
        rfl
      have hresident := CutSequence.mem_slots_of_block? hblock
      have hslots : forall other, other = slot ∨ other ∈ (without slot s.items).map Prod.fst <->
          other ∈ s.slots := by
        intro other
        rw [mem_map_fst_without]
        by_cases hother : other = slot
        · simp [hother, hresident]
        · simp [hother, CutSequence.slots]
      by_cases hnew : slot ∈ s.newSlots
      · rw [CutSequence.touch_of_new hblock hnew]
        have hnews : (slot, e.block) ∈ s.zones.news := h.mem_news_of_newSlots hnew hget
        refine (touch_new_completes h.arranged hnews).mono ?_
        rintro o ⟨hvalue, harena, harranged, -⟩
        refine ⟨hvalue, h.of_settled (CutSequence.zones_toFront hnew e.block hresident) harranged ?_
          harena.maxNew harena.maxOld⟩
        apply h.stored.congr harena
        intro other
        rw [<- hslots]
        exact List.mem_cons
      · rw [CutSequence.touch_of_not_new hblock hnew]
        have hsegment : e.segment ≠ .new := by
          intro hsegment
          rw [hsegment] at hmem
          exact hnew (List.mem_map_of_mem hmem)
        refine (touch_credit_completes h.arranged hsegment hmem).mono ?_
        rintro o ⟨hvalue, harena, harranged, -⟩
        refine ⟨hvalue, h.of_settled (CutSequence.zones_toCut hnew e.block.credit hresident)
          harranged ?_ harena.maxNew harena.maxOld⟩
        apply h.stored.congr harena
        intro other
        rw [<- hslots, CutSequence.slots, CutSequence.toCut, List.map_append, List.map_cons,
          List.mem_append, List.mem_cons, or_left_comm, <- List.mem_append, <- List.map_append,
          List.take_append_drop]

theorem Represents.remove_completes (h : Represents l s) (slot : Slot) :
    Completes (l.remove slot) fun o =>
      o.value = s.block? slot ∧ Represents o.list (s.remove slot) := by
  cases hget : l.get? slot with
  | none =>
      have hslot := h.get?_eq_none_iff.mp hget
      rw [remove_of_vacant hget, CutSequence.remove_of_not_mem hslot,
        CutSequence.block?_eq_none_iff.mpr hslot]
      exact Completes.ok ⟨rfl, h⟩
  | some e =>
      have hblock : s.block? slot = some e.block := by
        rw [<- h.block?_eq, block?, hget]
        rfl
      refine (RecencyList.remove_completes h.arranged h.stored_zones (h.mem_zone hget)).mono ?_
      rintro o ⟨hvalue, harranged, hstored, hmaxNew, hmaxOld, -⟩
      rw [Zones.items_remove, s.items_zones] at hstored
      exact ⟨hvalue.trans hblock.symm,
        h.of_settled (s.zones_remove slot) harranged hstored hmaxNew hmaxOld⟩

theorem Represents.clear_eq (h : Represents l s) : l.clear = empty maxNew maxOld := by
  rw [clear, h.maxNew_eq, h.maxOld_eq]

/-- Order, segments, counts and blocks are those of the sequence. -/
structure Shows (l : RecencyList) (s : CutSequence maxNew maxOld) : Prop where
  entries : Completes l.entries fun entries =>
    entries.map (fun e => ⟨e.1, e.2.block, e.2.segment⟩) = s.zones.residents
  sizes : l.sizes = s.zones.sizes
  block? : forall slot, l.block? slot = s.block? slot
  segment? : forall slot segment,
    l.segment? slot = some segment <-> slot ∈ (s.zones.zone segment).map Prod.fst

theorem Represents.segment?_eq_some_iff (h : Represents l s) (slot : Slot) (segment : Segment) :
    l.segment? slot = some segment <-> slot ∈ (s.zones.zone segment).map Prod.fst := by
  constructor
  · intro hsegment
    rcases Option.map_eq_some_iff.mp hsegment with ⟨e, hget, rfl⟩
    exact List.mem_map_of_mem (h.mem_zone hget)
  · intro hslot
    rcases List.mem_map.mp hslot with ⟨⟨_, block⟩, hmem, rfl⟩
    rcases h.arranged.get?_of_mem segment hmem with ⟨newer, older, hget⟩
    rw [segment?, hget]
    rfl

theorem Represents.shows (h : Represents l s) : Shows l s where
  entries := by
    refine ⟨_, h.arranged.entries_eq, ?_⟩
    exact (map_entriesOf (g := id) (fun _ _ _ => rfl) _ _ _).trans (List.map_id _)
  sizes := h.arranged.sizes
  block? := h.block?_eq
  segment? := h.segment?_eq_some_iff

theorem Represents.perform_completes (h : Represents l s) (operation : Operation) :
    Completes (l.perform operation) fun o =>
      exists s', CutSequence.Step s operation o.value s' ∧ Represents o.list s' := by
  cases operation with
  | push block =>
      refine (h.push_completes block).map ?_
      rintro o ⟨hfresh, hrepresents⟩
      exact ⟨_, .push hfresh, hrepresents⟩
  | touch slot =>
      refine (h.touch_completes slot).map ?_
      rintro ⟨credited, list, moves⟩ ⟨rfl, hrepresents⟩
      exact ⟨_, .touch slot, hrepresents⟩
  | remove slot =>
      refine (h.remove_completes slot).map ?_
      rintro ⟨block, list, moves⟩ ⟨rfl, hrepresents⟩
      exact ⟨_, .remove slot, hrepresents⟩
  | clear =>
      refine Completes.ok ⟨_, .clear, ?_⟩
      rw [h.clear_eq]
      exact represents_empty maxNew maxOld
  | victim =>
      refine (victim_completes h.arranged).map ?_
      intro slot hcandidate
      exact ⟨s, .victim hcandidate, h⟩

theorem Represents.run_completes (h : Represents l s) (operations : List Operation) :
    Completes (l.run operations) fun o =>
      exists s', CutSequence.Steps s operations o.value s' ∧ Represents o.list s' := by
  induction operations generalizing l s with
  | nil => exact Completes.ok ⟨s, .nil s, h⟩
  | cons operation operations ih =>
      refine (h.perform_completes operation).bind ?_
      rintro first ⟨s₁, hstep, h₁⟩
      refine (ih h₁).bind ?_
      rintro rest ⟨s₂, hsteps, h₂⟩
      exact Completes.pure ⟨s₂, .cons hstep hsteps, h₂⟩

/--
Under any bounds, any operations on an empty list complete, with the answers that they have
on the empty sequence, and the list shows the sequence that they lead to.
-/
theorem run_empty_refines (maxNew maxOld : Nat) (operations : List Operation) :
    Completes ((empty maxNew maxOld).run operations) fun o =>
      exists s : CutSequence maxNew maxOld,
        CutSequence.Steps .empty operations o.value s ∧ Represents o.list s ∧ Shows o.list s := by
  refine ((represents_empty maxNew maxOld).run_completes operations).mono ?_
  rintro o ⟨s, hsteps, hrepresents⟩
  exact ⟨s, hsteps, hrepresents, hrepresents.shows⟩

end RecencyList
end BlockCache

import BlockCache.Proofs.RecencyList.Zones
import Mathlib.Data.List.Induction

/-!
# Walks along the thread

A walk towards the back from the newest block meets all blocks in order, and a walk
towards the front from the oldest meets the blocks of Old, last to first. The candidate
for eviction is chosen on the second of these walks.
-/

namespace BlockCache

/--
The block to evict next: in Old, one with no more references than any block before it and
fewer than any block behind it; the last block of all if Old is empty.
-/
inductive Zones.Candidate (z : Zones) : Option Slot -> Prop where
  | none : z.items = [] -> Candidate z none
  | last {slot : Slot} {block : Block} {newer : List Item} :
      z.olds = [] -> z.items = newer ++ [(slot, block)] -> Candidate z (some slot)
  | old {slot : Slot} {block : Block} {newer older : List Item} :
      z.olds = newer ++ (slot, block) :: older ->
      (forall e, e ∈ newer -> block.counter <= e.2.counter) ->
      (forall e, e ∈ older -> block.counter < e.2.counter) -> Candidate z (some slot)

theorem Zones.Candidate.exists_mem {z : Zones} {candidate : Option Slot}
    (h : z.Candidate candidate) :
    z.items = [] ∨ exists slot block, candidate = some slot ∧ (slot, block) ∈ z.items := by
  cases h with
  | none hnil => exact .inl hnil
  | last holds hitems =>
      rename_i slot block newer
      exact .inr ⟨slot, block, rfl, by simp [hitems]⟩
  | old holds hnewer holder =>
      rename_i slot block newer older
      exact .inr ⟨slot, block, rfl, by simp [Zones.items, holds]⟩

namespace RecencyList

variable {l : RecencyList} {z : Zones}

def entriesOf (newer : Option Slot) : List Resident -> Option Slot -> List (Slot × Entry)
  | [], _ => []
  | r :: rs, older =>
      (r.slot, r.entry newer ((firstSlot rs).or older)) :: entriesOf (some r.slot) rs older

theorem entriesOf_append (newer older : Option Slot) (as bs : List Resident) :
    entriesOf newer (as ++ bs) older =
      entriesOf newer as ((firstSlot bs).or older) ++
        entriesOf ((lastSlot as).or newer) bs older := by
  induction as generalizing newer with
  | nil => simp [entriesOf]
  | cons r rs ih =>
      simp only [List.cons_append, entriesOf, ih, firstSlot_append, lastSlot_cons, Option.or_assoc]
      simp

theorem map_entriesOf {α : Type} {f : Slot × Entry -> α} {g : Resident -> α}
    (hfg : forall r newer older, f (r.slot, r.entry newer older) = g r)
    (newer older : Option Slot) (rs : List Resident) :
    (entriesOf newer rs older).map f = rs.map g := by
  induction rs generalizing newer with
  | nil => rfl
  | cons r rs ih => rw [entriesOf, List.map_cons, List.map_cons, hfg, ih]

theorem walk_of_keep {next : Entry -> Option Slot} {keep : Entry -> Bool} {limit : Nat}
    {slot : Slot} {e : Entry} {rest : List (Slot × Entry)} (h : l.get? slot = some e)
    (hkeep : keep e = true) (hrest : l.walk next keep limit (next e) = .ok rest) :
    l.walk next keep (limit + 1) (some slot) = .ok ((slot, e) :: rest) := by
  rw [walk, entry_eq_ok h]
  simp only [bind, Except.bind, pure, Except.pure, if_pos hkeep, hrest]

theorem walk_of_not_keep {next : Entry -> Option Slot} {keep : Entry -> Bool} {limit : Nat}
    {slot : Slot} {e : Entry} (h : l.get? slot = some e) (hkeep : keep e = false) :
    l.walk next keep (limit + 1) (some slot) = .ok [] := by
  rw [walk, entry_eq_ok h]
  simp [bind, Except.bind, pure, Except.pure, hkeep]

theorem walk_older_eq {newer : Option Slot} {rs : List Resident} {limit : Nat}
    (h : Chained l.get? newer rs none) (hlimit : rs.length <= limit) :
    l.walk Entry.older (fun _ => true) limit (firstSlot rs) = .ok (entriesOf newer rs none) := by
  induction rs generalizing newer limit with
  | nil => cases limit <;> rfl
  | cons r rs ih =>
      cases limit with
      | zero => cases hlimit
      | succ limit =>
          have hrest := ih h.2 (Nat.le_of_succ_le_succ hlimit)
          exact walk_of_keep h.1 rfl (by rw [Option.or_none]; exact hrest)

theorem walk_newer_eq {older : Option Slot} {front olds : List Resident} {limit : Nat}
    (h : Chained l.get? none (front ++ olds) older)
    (hfront : forall r, r ∈ front -> r.segment ≠ .old)
    (holds : forall r, r ∈ olds -> r.segment = .old) (hlimit : (front ++ olds).length <= limit) :
    l.walk Entry.newer (fun entry => entry.segment = .old) limit (lastSlot (front ++ olds)) =
      .ok (entriesOf (lastSlot front) olds older).reverse := by
  induction olds using List.reverseRecOn generalizing older limit with
  | nil =>
      rw [List.append_nil] at h hlimit ⊢
      induction front using List.reverseRecOn with
      | nil => cases limit <;> rfl
      | append_singleton rs r _ =>
          cases limit with
          | zero => simp at hlimit
          | succ limit =>
              rcases chained_append.mp h with ⟨-, hget, -⟩
              have hsegment : r.segment ≠ .old := hfront r (by simp)
              rw [lastSlot_append]
              exact walk_of_not_keep hget (decide_eq_false hsegment)
  | append_singleton rs r ih =>
      cases limit with
      | zero => simp at hlimit
      | succ limit =>
          rw [<- List.append_assoc] at h hlimit ⊢
          rcases chained_append.mp h with ⟨hrest, hget, -⟩
          have hsegment : r.segment = .old := holds r (by simp)
          have hlength : (front ++ rs).length <= limit := by
            rw [List.length_append] at hlimit
            exact Nat.le_of_succ_le_succ hlimit
          have hwalk := ih hrest (fun s hs => holds s (by simp [hs])) hlength
          rw [Option.or_none] at hget
          rw [lastSlot_append, entriesOf_append, List.reverse_append, <- lastSlot_append front rs]
          exact walk_of_keep hget (decide_eq_true hsegment) hwalk

theorem Arranged.length_eq (h : Arranged l z) : l.length = z.items.length := by
  rw [length, h.sizes]
  simp [SegmentSizes.total, Zones.sizes, Zones.items, Nat.add_assoc]

theorem Arranged.entries_eq (h : Arranged l z) :
    l.entries = .ok (entriesOf none z.residents none) := by
  rw [entries, h.linked.newest]
  apply walk_older_eq h.linked.chained
  rw [h.length_eq]
  simp [Zones.residents, Zones.items, Zones.tagged]

theorem leastCredited_eq_none_iff {entries : List (Slot × Entry)} :
    leastCredited entries = none <-> entries = [] := by
  cases entries with
  | nil => simp [leastCredited]
  | cons e rest =>
      rw [leastCredited]
      split
      · simp
      · split <;> simp

/-- The entry chosen has fewer references than those before it and no more than those behind. -/
theorem leastCredited_eq_some {entries : List (Slot × Entry)} {best : Slot × Entry}
    (h : leastCredited entries = some best) :
    exists before behind, entries = before ++ best :: behind ∧
      (forall e, e ∈ before -> best.2.block.counter < e.2.block.counter) ∧
      (forall e, e ∈ behind -> best.2.block.counter <= e.2.block.counter) := by
  induction entries generalizing best with
  | nil => cases h
  | cons e rest ih =>
      rw [leastCredited] at h
      cases hrest : leastCredited rest with
      | none =>
          rw [hrest] at h
          cases h
          rw [leastCredited_eq_none_iff.mp hrest]
          exact ⟨[], [], rfl, by simp, by simp⟩
      | some other =>
          rcases ih hrest with ⟨before, behind, rfl, hbefore, hbehind⟩
          rw [hrest] at h
          by_cases hless : other.2.block.counter < e.2.block.counter
          · cases (if_pos hless).symm.trans h
            refine ⟨e :: before, behind, rfl, ?_, hbehind⟩
            intro d hd
            rcases List.mem_cons.mp hd with rfl | hd
            · exact hless
            · exact hbefore d hd
          · cases (if_neg hless).symm.trans h
            refine ⟨[], before ++ other :: behind, rfl, by simp, ?_⟩
            have hle : e.2.block.counter <= other.2.block.counter := UInt64.not_lt.mp hless
            intro d hd
            rcases List.mem_append.mp hd with hd | hd
            · exact UInt64.le_trans hle (UInt64.le_of_lt (hbefore d hd))
            · rcases List.mem_cons.mp hd with rfl | hd
              · exact hle
              · exact UInt64.le_trans hle (hbehind d hd)

theorem Arranged.oldEntries_eq (h : Arranged l z) :
    exists newer, l.oldEntries = .ok (entriesOf newer (Zones.tagged .old z.olds) none).reverse := by
  have hresidents : z.residents =
      (Zones.tagged .new z.news ++ Zones.tagged .middle z.middles) ++ Zones.tagged .old z.olds := by
    simp [Zones.residents]
  refine ⟨lastSlot (Zones.tagged .new z.news ++ Zones.tagged .middle z.middles), ?_⟩
  rw [oldEntries, h.linked.oldest, hresidents]
  apply walk_newer_eq
  · rw [<- hresidents]
    exact h.linked.chained
  · intro r hr
    rcases List.mem_append.mp hr with hr | hr
    all_goals
      rcases List.mem_map.mp hr with ⟨e, -, rfl⟩
      simp
  · intro r hr
    rcases List.mem_map.mp hr with ⟨e, -, rfl⟩
    rfl
  · rw [h.length_eq]
    simp [Zones.items, Zones.tagged]

theorem Arranged.candidate_oldest (h : Arranged l z) (holds : z.olds = []) :
    z.Candidate l.oldest := by
  have hitems : lastSlot z.residents = z.items.getLast?.map Prod.fst := by
    rw [lastSlot, <- List.getLast?_map, <- List.getLast?_map]
    exact congrArg List.getLast? (Zones.slotsOf_residents z)
  rw [h.linked.oldest, hitems]
  rcases List.eq_nil_or_concat z.items with hnil | ⟨newer, ⟨slot, block⟩, hconcat⟩
  · rw [hnil]
    exact .none hnil
  · rw [hconcat, List.concat_eq_append, List.getLast?_concat]
    exact .last holds (hconcat.trans List.concat_eq_append)

theorem victim_completes (h : Arranged l z) : Completes l.victim z.Candidate := by
  rcases h.oldEntries_eq with ⟨newer, hold⟩
  unfold victim
  refine Completes.bind_eq hold ?_
  have hitems : (entriesOf newer (Zones.tagged .old z.olds) none).map
      (fun e => (e.1, e.2.block)) = z.olds := by
    rw [map_entriesOf (g := fun r => (r.slot, r.block)) (fun _ _ _ => rfl)]
    simp [Zones.tagged, Function.comp_def]
  cases hleast : leastCredited (entriesOf newer (Zones.tagged .old z.olds) none).reverse with
  | none =>
      have hnil := List.reverse_eq_nil_iff.mp (leastCredited_eq_none_iff.mp hleast)
      rw [hnil] at hitems
      exact Completes.pure (h.candidate_oldest hitems.symm)
  | some best =>
      rcases leastCredited_eq_some hleast with ⟨before, behind, heq, hbefore, hbehind⟩
      rw [List.reverse_eq_iff, List.reverse_append, List.reverse_cons, List.append_assoc,
        List.singleton_append] at heq
      rw [heq, List.map_append, List.map_cons] at hitems
      refine Completes.pure (.old hitems.symm ?_ ?_)
      · intro e he
        rcases List.mem_map.mp he with ⟨d, hd, rfl⟩
        exact hbehind d (List.mem_reverse.mp hd)
      · intro e he
        rcases List.mem_map.mp he with ⟨d, hd, rfl⟩
        exact hbefore d (List.mem_reverse.mp hd)

end RecencyList
end BlockCache

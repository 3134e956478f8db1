import BlockCache.Proofs.RecencyList.Check

/-!
# Boundary moves

Rebalancing is made of three loops, but between operations the segments are balanced: New
and Old are within their bounds, and Middle is empty while Old has room. An operation
disturbs this by one block at most, so each boundary passes at most one block, and blocks
only ever pass towards the back.
-/

namespace BlockCache

/-- At most one block passes from New to Middle, and then at most one from Middle to Old. -/
def Move.oneWay (fromNew toOld : Option Slot) : List Move :=
  (fromNew.map fun slot => Move.mk slot .new .middle).toList ++
    (toOld.map fun slot => Move.mk slot .middle .old).toList

theorem drop_eq_toList_of_length_le {α : Type} {xs : List α} {n : Nat} (h : xs.length <= n + 1) :
    xs.drop n = (if n < xs.length then xs.getLast? else none).toList := by
  by_cases hlt : n < xs.length
  · rw [if_pos hlt]
    rcases List.eq_nil_or_concat xs with rfl | ⟨init, last, rfl⟩
    · exact absurd hlt (Nat.not_lt_zero n)
    · rw [List.length_concat] at h hlt
      rw [List.concat_eq_append, List.getLast?_concat]
      exact List.drop_left' (Nat.le_antisymm (Nat.le_of_succ_le_succ h) (Nat.le_of_lt_succ hlt))
  · rw [if_neg hlt]
    exact List.drop_of_length_le (Nat.le_of_not_lt hlt)

namespace Zones

variable {z : Zones} {maxNew maxOld : Nat} {slot : Slot} {block : Block}

structure Balanced (z : Zones) (maxNew maxOld : Nat) : Prop where
  news_le : z.news.length <= maxNew
  olds_le : z.olds.length <= maxOld
  middles_eq_nil : z.olds.length < maxOld -> z.middles = []

/-- The segments when an operation comes to its rebalancing: no boundary has to pass two blocks. -/
structure NearlyBalanced (z : Zones) (maxNew maxOld : Nat) : Prop where
  news_le : z.news.length <= maxNew + 1
  olds_le : z.olds.length <= maxOld
  passing_le : maxOld <= z.olds.length + 1 ∨ (z.trimNew maxNew).middles.length <= 1

theorem trimOld_of_length_le (h : z.olds.length <= maxOld) : z.trimOld maxOld = z := by
  have hsurplus : z.oldSurplus maxOld = 0 := Nat.sub_eq_zero_of_le h
  rw [trimOld, hsurplus, List.take_zero, List.append_nil, List.drop_zero]

theorem drop_middleRest (h : maxOld <= z.olds.length + 1 ∨ z.middles.length <= 1) :
    z.middles.drop (z.middleRest maxOld) =
      (if z.olds.length < maxOld then z.middles.getLast? else none).toList := by
  have hone : z.middles.length <= z.middleRest maxOld + 1 := by
    unfold middleRest
    omega
  rw [drop_eq_toList_of_length_le hone]
  by_cases hroom : z.olds.length < maxOld
  · rw [if_pos hroom]
    by_cases hnil : z.middles = []
    · rw [hnil]
      simp
    · have hpos := List.length_pos_iff.mpr hnil
      have hrest : z.middleRest maxOld < z.middles.length := by
        unfold middleRest
        omega
      rw [if_pos hrest]
  · have hrest : ¬ z.middleRest maxOld < z.middles.length := by
      unfold middleRest
      omega
    rw [if_neg hroom, if_neg hrest]

/-- The last block of New passes if New has one too many, and the last of Middle if Old has room. -/
theorem NearlyBalanced.moves_eq (h : z.NearlyBalanced maxNew maxOld) :
    z.moves maxNew maxOld = Move.oneWay
      ((if maxNew < z.news.length then z.news.getLast? else none).map Prod.fst)
      ((if z.olds.length < maxOld then (z.trimNew maxNew).middles.getLast? else none).map
        Prod.fst) := by
  have holds : (z.trimNew maxNew).olds.length <= maxOld := h.olds_le
  have hsurplus : (z.trimNew maxNew).oldSurplus maxOld = 0 := Nat.sub_eq_zero_of_le holds
  have hpassed : forall (passed : Option Item) (source target : Segment),
      passed.toList.reverse.map (fun e => Move.mk e.1 source target) =
        ((passed.map Prod.fst).map fun slot => Move.mk slot source target).toList := by
    intro passed source target
    cases passed <;> rfl
  unfold moves
  dsimp only
  rw [hsurplus, trimOld_of_length_le holds, List.take_zero, List.map_nil, List.append_nil,
    drop_eq_toList_of_length_le h.news_le, drop_middleRest h.passing_le, hpassed, hpassed]
  rfl

/-!
# What each operation disturbs
-/

theorem getLast?_cons_slot (slot : Slot) (block : Block) (items : List Item) :
    ((slot, block) :: items).getLast?.map Prod.fst =
      some ((items.map Prod.fst).getLastD slot) := by
  rw [<- List.getLast?_map, List.map_cons, List.getLast?_cons, List.getLastD_eq_getLast?]

theorem Balanced.push (h : z.Balanced maxNew maxOld) (slot : Slot) (block : Block) :
    (z.push slot block).NearlyBalanced maxNew maxOld where
  news_le := Nat.succ_le_succ h.news_le
  olds_le := h.olds_le
  passing_le := by
    have hnews := h.news_le
    by_cases hroom : z.olds.length < maxOld
    · right
      simp only [Zones.push, trimNew, h.middles_eq_nil hroom, List.append_nil, List.length_drop,
        List.length_cons]
      omega
    · left
      show maxOld <= z.olds.length + 1
      omega

theorem Balanced.moves_push (h : z.Balanced maxNew maxOld) (slot : Slot) (block : Block) :
    exists fromNew toOld : Option Slot,
      (z.push slot block).moves maxNew maxOld = Move.oneWay fromNew toOld ∧
        fromNew = (if z.news.length = maxNew then some ((z.news.map Prod.fst).getLastD slot)
          else none) ∧
        toOld = if z.olds.length < maxOld then
          (fromNew.toList ++ z.middles.map Prod.fst).getLast? else none := by
  have hnearly := h.push slot block
  have hfull : maxNew < (z.push slot block).news.length <-> z.news.length = maxNew := by
    have hnews := h.news_le
    simp only [Zones.push, List.length_cons]
    omega
  refine ⟨_, _, hnearly.moves_eq, ?_, ?_⟩
  · simp only [hfull]
    by_cases hnew : z.news.length = maxNew
    · rw [if_pos hnew, if_pos hnew]
      exact getLast?_cons_slot slot block z.news
    · rw [if_neg hnew, if_neg hnew]
      rfl
  · have hmiddles : ((z.push slot block).trimNew maxNew).middles.map Prod.fst =
        ((if maxNew < (z.push slot block).news.length then (z.push slot block).news.getLast?
          else none).map Prod.fst).toList ++ z.middles.map Prod.fst := by
      rw [trimNew, List.map_append, drop_eq_toList_of_length_le hnearly.news_le,
        <- Option.toList_map]
      rfl
    rw [apply_ite (Option.map Prod.fst), <- List.getLast?_map, hmiddles]
    rfl

theorem moves_of_news_le (hnews : z.news.length <= maxNew) (holds : z.olds.length <= maxOld)
    (hpassing : maxOld <= z.olds.length + 1 ∨ z.middles.length <= 1) :
    z.moves maxNew maxOld = Move.oneWay none
      ((if z.olds.length < maxOld then z.middles.getLast? else none).map Prod.fst) := by
  have htrim : (z.trimNew maxNew).middles = z.middles := by
    rw [trimNew, List.drop_of_length_le hnews, List.nil_append]
  have hnearly : z.NearlyBalanced maxNew maxOld :=
    ⟨Nat.le_succ_of_le hnews, holds, htrim ▸ hpassing⟩
  rw [hnearly.moves_eq, if_neg (Nat.not_lt.mpr hnews), htrim]
  rfl

theorem Balanced.moves_eq (h : z.Balanced maxNew maxOld) :
    z.moves maxNew maxOld = Move.oneWay none none := by
  by_cases hroom : z.olds.length < maxOld
  · have hmiddles := h.middles_eq_nil hroom
    rw [moves_of_news_le h.news_le h.olds_le (.inr (by simp [hmiddles])), hmiddles]
    simp
  · rw [moves_of_news_le h.news_le h.olds_le (.inl (by omega)), if_neg hroom]
    rfl

theorem Balanced.moves_of_lost {middles olds : List Item} (h : z.Balanced maxNew maxOld)
    (holds : olds.length + 1 = z.olds.length) (hmiddles : middles.length <= z.middles.length + 1) :
    moves ⟨z.news, middles, olds⟩ maxNew maxOld =
      Move.oneWay none (middles.getLast?.map Prod.fst) := by
  have hle := h.olds_le
  have hpassing : maxOld <= olds.length + 1 ∨ middles.length <= 1 := by
    by_cases hroom : z.olds.length < maxOld
    · rw [h.middles_eq_nil hroom] at hmiddles
      exact .inr hmiddles
    · left
      omega
  have hroom : olds.length < maxOld := by
    omega
  have hmoves := moves_of_news_le (z := ⟨z.news, middles, olds⟩) h.news_le
    (Nat.le_of_lt hroom) hpassing
  rw [if_pos hroom] at hmoves
  exact hmoves

theorem Balanced.moves_toFront (h : z.Balanced maxNew maxOld)
    (hnodup : (z.items.map Prod.fst).Nodup)
    (hmem : (slot, block) ∈ z.news) :
    ((z.remove slot).push slot block).moves maxNew maxOld = Move.oneWay none none := by
  have hslot := List.mem_map_of_mem (f := Prod.fst) hmem
  have hnews : (z.news.map Prod.fst).Nodup := by
    rw [items, List.map_append] at hnodup
    exact (List.nodup_append.mp hnodup).1
  have hlength := length_without hnews hslot
  rw [(remove_eq hnodup slot).1 hslot]
  apply Balanced.moves_eq
  constructor
  · show (without slot z.news).length + 1 <= maxNew
    rw [hlength]
    exact h.news_le
  · exact h.olds_le
  · exact h.middles_eq_nil

theorem nodup_olds (hnodup : (z.items.map Prod.fst).Nodup) : (z.olds.map Prod.fst).Nodup :=
  hnodup.sublist (((List.sublist_append_right _ _).trans (List.sublist_append_right _ _)).map _)

theorem Balanced.moves_promote (h : z.Balanced maxNew maxOld)
    (hnodup : (z.items.map Prod.fst).Nodup) {segment : Segment} (hsegment : segment ≠ .new)
    (hmem : (slot, block) ∈ z.zone segment) (credited : Block) :
    ((z.remove slot).promote slot credited).moves maxNew maxOld = Move.oneWay none
      (if slot ∈ z.olds.map Prod.fst then some ((z.middles.map Prod.fst).getLastD slot)
        else none) := by
  have hremove := remove_eq hnodup slot
  by_cases hold : slot ∈ z.olds.map Prod.fst
  · have hlost := length_without (nodup_olds hnodup) hold
    rw [if_pos hold, hremove.2.2 hold, <- getLast?_cons_slot slot credited]
    exact h.moves_of_lost hlost (Nat.le_refl _)
  · -- The block was in Middle, so Old is full.
    have hmiddle : slot ∈ z.middles.map Prod.fst := by
      cases segment with
      | new => exact absurd rfl hsegment
      | middle => exact List.mem_map_of_mem hmem
      | old => exact absurd (List.mem_map_of_mem hmem) hold
    have hfull : ¬ z.olds.length < maxOld := by
      intro hroom
      rw [h.middles_eq_nil hroom] at hmiddle
      cases hmiddle
    rw [if_neg hold, hremove.2.1 hmiddle]
    apply Balanced.moves_eq
    exact ⟨h.news_le, h.olds_le, fun hroom => absurd hroom hfull⟩

theorem Balanced.moves_remove (h : z.Balanced maxNew maxOld)
    (hnodup : (z.items.map Prod.fst).Nodup) (slot : Slot) :
    (z.remove slot).moves maxNew maxOld = Move.oneWay none
      (if slot ∈ z.olds.map Prod.fst then (z.middles.map Prod.fst).getLast? else none) := by
  by_cases hold : slot ∈ z.olds.map Prod.fst
  · have hlost := length_without (nodup_olds hnodup) hold
    rw [if_pos hold, (remove_eq hnodup slot).2.2 hold, List.getLast?_map]
    exact h.moves_of_lost hlost (Nat.le_succ _)
  · rw [if_neg hold]
    apply Balanced.moves_eq
    constructor
    · exact Nat.le_trans (List.length_filter_le _ _) h.news_le
    · exact Nat.le_trans (List.length_filter_le _ _) h.olds_le
    · intro hroom
      have holds : (z.remove slot).olds = z.olds := without_eq_self hold
      rw [holds] at hroom
      rw [remove, h.middles_eq_nil hroom]
      rfl

end Zones

theorem CutSequence.balanced_zones {maxNew maxOld : Nat} (s : CutSequence maxNew maxOld) :
    s.zones.Balanced maxNew maxOld := by
  have hnews := s.length_news_zones
  have holds := s.length_olds_zones
  have hcut := s.cut_le_maxNew
  have hitems : s.zones.news.length + (s.zones.middles.length + s.zones.olds.length) =
      s.items.length := by
    rw [<- s.items_zones]
    simp [Zones.items]
  constructor
  · omega
  · omega
  · intro hroom
    apply List.eq_nil_of_length_eq_zero
    omega

namespace RecencyList

variable {l : RecencyList} {maxNew maxOld : Nat} {s : CutSequence maxNew maxOld}

/-!
# Moves of the operations
-/

theorem Represents.entries_completes (h : Represents l s) :
    Completes l.entries fun entries =>
      forall segment, slotsIn segment entries = (s.zones.zone segment).map Prod.fst :=
  ⟨_, h.arranged.entries_eq, fun segment => slotsIn_residents s.zones segment none none⟩

theorem Represents.push_moves (h : Represents l s) (block : Block) :
    Completes (l.push block) fun pushed => exists fromNew toOld : Option Slot,
      pushed.moves = Move.oneWay fromNew toOld ∧
        fromNew = (if s.zones.news.length = maxNew then
          some ((s.zones.news.map Prod.fst).getLastD pushed.value) else none) ∧
        toOld = if s.zones.olds.length < maxOld then
          (fromNew.toList ++ s.zones.middles.map Prod.fst).getLast? else none := by
  apply (RecencyList.push_completes h.arranged h.stored_zones block).mono
  intro pushed hpushed
  rcases hpushed with ⟨-, -, -, -, -, hmoves⟩
  rw [h.maxNew_eq, h.maxOld_eq] at hmoves
  rw [hmoves]
  exact s.balanced_zones.moves_push pushed.value block

theorem Represents.not_mem_olds (h : Represents l s) {slot : Slot}
    (hsegment : l.segment? slot ≠ some .old) : slot ∉ s.zones.olds.map Prod.fst :=
  mt (h.segment?_eq_some_iff slot .old).mpr hsegment

theorem Represents.touch_moves (h : Represents l s) (slot : Slot) :
    Completes (l.touch slot) fun touched =>
      touched.moves = Move.oneWay none (if slot ∈ s.zones.olds.map Prod.fst then
        some ((s.zones.middles.map Prod.fst).getLastD slot) else none) := by
  cases hget : l.get? slot with
  | none =>
      have hvacant : l.segment? slot ≠ some .old := by
        simp [segment?, hget]
      rw [touch_of_vacant hget, if_neg (h.not_mem_olds hvacant)]
      exact Completes.ok rfl
  | some e =>
      have hmem := h.mem_zone hget
      by_cases hsegment : e.segment = .new
      · have hnew : l.segment? slot ≠ some .old := by
          simp [segment?, hget, hsegment]
        rw [hsegment] at hmem
        apply (touch_new_completes h.arranged hmem).mono
        intro touched htouched
        rcases htouched with ⟨-, -, -, hmoves⟩
        rw [h.maxNew_eq, h.maxOld_eq] at hmoves
        rw [hmoves, if_neg (h.not_mem_olds hnew)]
        exact s.balanced_zones.moves_toFront h.arranged.nodup hmem
      · apply (touch_credit_completes h.arranged hsegment hmem).mono
        intro touched htouched
        rcases htouched with ⟨-, -, -, hmoves⟩
        rw [h.maxNew_eq, h.maxOld_eq] at hmoves
        rw [hmoves]
        exact s.balanced_zones.moves_promote h.arranged.nodup hsegment hmem e.block.credit

theorem Represents.remove_moves (h : Represents l s) (slot : Slot) :
    Completes (l.remove slot) fun removed =>
      removed.moves = Move.oneWay none (if slot ∈ s.zones.olds.map Prod.fst then
        (s.zones.middles.map Prod.fst).getLast? else none) := by
  cases hget : l.get? slot with
  | none =>
      have hvacant : l.segment? slot ≠ some .old := by
        simp [segment?, hget]
      rw [remove_of_vacant hget, if_neg (h.not_mem_olds hvacant)]
      exact Completes.ok rfl
  | some e =>
      apply (RecencyList.remove_completes h.arranged h.stored_zones (h.mem_zone hget)).mono
      intro removed hremoved
      rcases hremoved with ⟨-, -, -, -, -, hmoves⟩
      rw [h.maxNew_eq, h.maxOld_eq] at hmoves
      rw [hmoves]
      exact s.balanced_zones.moves_remove h.arranged.nodup slot

/--
Whatever has been done to a list, the next operation lets at most one block pass from New to
Middle, and after it at most one from Middle to Old. A push does the first exactly if New was
full, with the last of New, and the second exactly if Old had room and Middle has a block then,
with the last of Middle. A hit lets one block pass to Old if it takes one out of Old, and a
removal does so if there is one; nothing else makes a boundary move.
-/
theorem run_moves_one_way (maxNew maxOld : Nat) (operations : List Operation) :
    Completes ((empty maxNew maxOld).run operations) fun ran =>
      Completes ran.list.entries fun entries =>
        (forall block, Completes (ran.list.push block) fun pushed =>
          exists fromNew toOld : Option Slot, pushed.moves = Move.oneWay fromNew toOld ∧
            fromNew = (if (slotsIn .new entries).length = maxNew then
              some ((slotsIn .new entries).getLastD pushed.value) else none) ∧
            toOld = if (slotsIn .old entries).length < maxOld then
              (fromNew.toList ++ slotsIn .middle entries).getLast? else none) ∧
        (forall slot, Completes (ran.list.touch slot) fun touched =>
          touched.moves = Move.oneWay none (if slot ∈ slotsIn .old entries then
            some ((slotsIn .middle entries).getLastD slot) else none)) ∧
        forall slot, Completes (ran.list.remove slot) fun removed =>
          removed.moves = Move.oneWay none (if slot ∈ slotsIn .old entries then
            (slotsIn .middle entries).getLast? else none) := by
  apply ((represents_empty maxNew maxOld).run_completes operations).mono
  intro ran hran
  rcases hran with ⟨s, -, h⟩
  apply h.entries_completes.mono
  intro entries hentries
  simp only [hentries, List.length_map]
  exact ⟨h.push_moves, h.touch_moves, h.remove_moves⟩

end RecencyList
end BlockCache

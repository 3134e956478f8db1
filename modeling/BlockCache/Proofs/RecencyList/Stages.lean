import BlockCache.Proofs.RecencyList.Check

/-!
# Operations in stages

Operations of a recency list are made of a few stages: a slot is chosen for a block, a block
is taken out of the thread or put into it, a slot is given back, a boundary passes one block.
Each stage has a condition under which it is due, which the operation has made sure of when
it comes to the stage. Between two stages one block at most is outside the thread.

No stage that is due ever stops. At every point of every operation the thread can be walked
in both directions and ends after as many blocks as are counted, every link and every
boundary names a block of the thread, and a slot holds a block exactly if the block is in
the thread or is the one that is just being moved.
-/

namespace BlockCache

theorem Zones.map_fst_credit (z : Zones) (slot : Slot) :
    (z.credit slot).items.map Prod.fst = z.items.map Prod.fst := by
  have hitems : forall items : List Item,
      (creditItems slot items).map Prod.fst = items.map Prod.fst := by
    intro items
    rw [creditItems, List.map_map]
    apply List.map_congr_left
    intro e _
    simp only [Function.comp_apply]
    split <;> rfl
  simp [items, credit, hitems]

theorem Zones.exists_leave {z : Zones} {segment : Segment} {e : Item} (h : e ∈ z.zone segment) :
    exists sizes, z.sizes.leave? segment = some sizes := by
  have hne := Nat.ne_of_gt (List.length_pos_of_mem h)
  cases segment with
  | new => exact ⟨_, if_neg hne⟩
  | middle => exact ⟨_, if_neg hne⟩
  | old => exact ⟨_, if_neg hne⟩

theorem Zones.Candidate.resident {z : Zones} {candidate : Option Slot}
    (h : z.Candidate candidate) :
    (candidate = .none <-> z.items.map Prod.fst = []) ∧
      forall slot, candidate = some slot -> slot ∈ z.items.map Prod.fst := by
  rcases h.exists_mem with hnil | ⟨slot, block, rfl, hmem⟩
  · cases h with
    | none _ => simp [hnil]
    | last _ hitems => simp [hitems] at hnil
    | old holds _ _ => simp [Zones.items, holds] at hnil
  · have hslot := List.mem_map_of_mem (f := Prod.fst) hmem
    refine ⟨⟨fun hnone => ?_, fun hnil => ?_⟩, fun other hother => ?_⟩
    · cases hnone
    · rw [hnil] at hslot
      cases hslot
    · cases hother
      exact hslot

theorem Completes.of_map {ε α β : Type} {x : Except ε α} {g : α -> β} {R : β -> Prop}
    (h : Completes (x.map g) R) : Completes x fun a => R (g a) := by
  rcases h with ⟨b, hb, hR⟩
  rcases exists_of_map_eq_ok hb with ⟨a, ha, rfl⟩
  exact ⟨a, ha, hR⟩

namespace RecencyList

inductive Stage where
  | allocate (block : Block)
  | credit (slot : Slot)
  | detach (slot : Slot)
  | enterNew (slot : Slot)
  | enterMiddle (slot : Slot)
  | release (slot : Slot)
  | shrinkNew
  | shrinkOld
  | growOld
  | clear
deriving DecidableEq, Repr

def advance (l : RecencyList) : Stage -> Except Corruption (RecencyList × Option Slot)
  | .allocate block => .ok ((l.allocate block).2, some (l.allocate block).1)
  | .credit slot =>
      (l.modify slot fun entry => { entry with block := entry.block.credit }).map fun l => (l, none)
  | .detach slot => (l.detach slot).map fun l => (l, some slot)
  | .enterNew slot => (l.enterNew slot).map fun l => (l, none)
  | .enterMiddle slot => (l.enterMiddle slot).map fun l => (l, none)
  | .release slot => .ok (l.release slot, none)
  | .shrinkNew => l.shrinkNew.map fun passed => (passed.1, none)
  | .shrinkOld => l.shrinkOld.map fun passed => (passed.1, none)
  | .growOld => l.growOld.map fun passed => (passed.1, none)
  | .clear => .ok (l.clear, none)

/--
When operations take a stage. `pending` is the slot of the block outside the thread, if there
is one.
-/
def Due (l : RecencyList) (pending : Option Slot) : Stage -> Prop
  | .allocate _ | .clear => pending = none
  | .credit slot | .detach slot => pending = none ∧ (l.get? slot).isSome
  | .enterNew slot | .enterMiddle slot | .release slot => pending = some slot
  | .shrinkNew => pending = none ∧ l.maxNew < l.sizes.new
  | .shrinkOld => pending = none ∧ l.maxOld < l.sizes.old
  | .growOld => pending = none ∧ l.sizes.old < l.maxOld ∧ 0 < l.sizes.middle

/-- Stages one after the other, each of them due when its turn comes. -/
inductive Proceeds (l : RecencyList) (pending : Option Slot) :
    List Stage -> RecencyList -> Option Slot -> Prop where
  | refl : Proceeds l pending [] l pending
  | advanced {stages : List Stage} {l₁ l₂ : RecencyList} {pending₁ pending₂ : Option Slot}
      (stage : Stage) :
      Proceeds l pending stages l₁ pending₁ -> Due l₁ pending₁ stage ->
      l₁.advance stage = .ok (l₂, pending₂) ->
      Proceeds l pending (stages ++ [stage]) l₂ pending₂

def stageOf (move : Move) : Stage :=
  match move.source with
  | .new => .shrinkNew
  | .middle => .growOld
  | .old => .shrinkOld

/-- The stages that an operation begins with. What follows are the moves of the boundaries. -/
def opening (l : RecencyList) : Operation -> List Stage
  | .push block => [.allocate block, .enterNew (l.allocate block).1]
  | .touch slot =>
      match l.segment? slot with
      | none => []
      | some .new => if l.newest = some slot then [] else [.detach slot, .enterNew slot]
      | some .middle | some .old => [.credit slot, .detach slot, .enterMiddle slot]
  | .remove slot => if (l.get? slot).isSome then [.detach slot, .release slot] else []
  | .clear => [.clear]
  | .victim => []

variable {l l' : RecencyList} {pending : Option Slot} {stages : List Stage} {z : Zones}
  {slot : Slot}

/-!
# What holds between two stages
-/

/-- The thread runs through `z`, and the block outside it, if there is one, has no links. -/
structure Threaded (l : RecencyList) (pending : Option Slot) (z : Zones) : Prop where
  arranged : Arranged l z
  stored : Stored l (pending.toList ++ z.items.map Prod.fst)
  apart : forall slot, pending = some slot -> slot ∉ z.items.map Prod.fst
  unlinked : forall slot, pending = some slot ->
    exists block segment, l.get? slot = some ⟨block, segment, none, none⟩

theorem threaded_none_iff :
    Threaded l none z <-> Arranged l z ∧ Stored l (z.items.map Prod.fst) := by
  constructor
  · intro h
    exact ⟨h.arranged, h.stored⟩
  · rintro ⟨harranged, hstored⟩
    refine ⟨harranged, hstored, ?_, ?_⟩
    · intro slot hslot
      cases hslot
    · intro slot hslot
      cases hslot

theorem threaded_some_iff :
    Threaded l (some slot) z <->
      Arranged l z ∧ Stored l (slot :: z.items.map Prod.fst) ∧ slot ∉ z.items.map Prod.fst ∧
        exists block segment, l.get? slot = some ⟨block, segment, none, none⟩ := by
  constructor
  · intro h
    exact ⟨h.arranged, h.stored, h.apart slot rfl, h.unlinked slot rfl⟩
  · rintro ⟨harranged, hstored, hfresh, hget⟩
    refine ⟨harranged, hstored, ?_, ?_⟩
    · rintro _ ⟨⟩
      exact hfresh
    · rintro _ ⟨⟩
      exact hget

theorem Threaded.exists_mem (h : Threaded l none z) (hslot : (l.get? slot).isSome) :
    exists block segment, (slot, block) ∈ z.zone segment := by
  rcases Option.isSome_iff_exists.mp hslot with ⟨e, he⟩
  exact ⟨e.block, e.segment, h.arranged.mem_of_get? h.stored he⟩

theorem threaded_empty (maxNew maxOld : Nat) :
    Threaded (empty maxNew maxOld) none ⟨[], [], []⟩ := by
  have hempty := represents_empty maxNew maxOld
  have hzones : (CutSequence.empty : CutSequence maxNew maxOld).zones = ⟨[], [], []⟩ :=
    CutSequence.zones_empty
  rw [threaded_none_iff, <- hzones]
  exact ⟨hempty.arranged, hempty.stored_zones⟩

/-!
# Each stage keeps it
-/

theorem Threaded.allocate (h : Threaded l none z) (block : Block) :
    Threaded (l.allocate block).2 (some (l.allocate block).1) z := by
  rcases allocate_allocated h.arranged h.stored block with ⟨hfresh, harranged, hstored, hget, -, -⟩
  exact threaded_some_iff.mpr ⟨harranged, hstored, hfresh, block, .new, hget⟩

theorem Threaded.credit (h : Threaded l none z) (hslot : (l.get? slot).isSome) :
    Completes (l.modify slot fun entry => { entry with block := entry.block.credit }) fun l' =>
      Threaded l' none (z.credit slot) ∧ (l'.get? slot).isSome := by
  rcases h.exists_mem hslot with ⟨block, segment, hmem⟩
  refine (credit_completes h.arranged segment hmem).mono fun l' h' => ?_
  rcases h' with ⟨harena, harranged⟩
  refine ⟨threaded_none_iff.mpr ⟨harranged, ?_⟩, ?_⟩
  · rw [Zones.map_fst_credit]
    exact h.stored.congr harena fun _ => Iff.rfl
  · rw [harena.occupied]
    exact hslot

theorem Threaded.detach (h : Threaded l none z) (hslot : (l.get? slot).isSome) :
    Completes (l.detach slot) fun l' => Threaded l' (some slot) (z.remove slot) := by
  rcases h.exists_mem hslot with ⟨block, segment, hmem⟩
  refine (detach_zone h.arranged segment hmem).mono fun l' h' => ?_
  rcases h' with ⟨harranged, harena, hget⟩
  refine threaded_some_iff.mpr
    ⟨harranged, h.stored.congr harena fun other => ?_, slot_not_mem_remove z slot, block, segment,
      hget⟩
  have hlinked := (h.stored.occupied slot).mp hslot
  rw [Zones.items_remove, List.mem_cons, mem_map_fst_without]
  constructor
  · rintro (rfl | hother)
    · exact hlinked
    · exact hother.1
  · intro hother
    by_cases heq : other = slot
    · exact .inl heq
    · exact .inr ⟨hother, heq⟩

theorem Threaded.enterNew (h : Threaded l (some slot) z) :
    Completes (l.enterNew slot) fun l' => exists block, Threaded l' none (z.push slot block) := by
  rcases threaded_some_iff.mp h with ⟨harranged, hstored, hfresh, block, segment, hget⟩
  refine (enterNew_completes harranged hfresh hget).mono fun l' h' => ?_
  exact ⟨block, threaded_none_iff.mpr ⟨h'.1, hstored.congr h'.2 fun _ => Iff.rfl⟩⟩

theorem Threaded.enterMiddle (h : Threaded l (some slot) z) :
    Completes (l.enterMiddle slot) fun l' =>
      exists block, Threaded l' none (z.promote slot block) := by
  rcases threaded_some_iff.mp h with ⟨harranged, hstored, hfresh, block, segment, hget⟩
  refine (enterMiddle_completes harranged hfresh hget).mono fun l' h' => ?_
  refine ⟨block, threaded_none_iff.mpr ⟨h'.1, hstored.congr h'.2 fun other => ?_⟩⟩
  simp only [Zones.items, Zones.promote, List.map_append, List.map_cons, List.mem_append,
    List.mem_cons, or_assoc]
  exact or_left_comm

theorem Threaded.release (h : Threaded l (some slot) z) : Threaded (l.release slot) none z := by
  rcases threaded_some_iff.mp h with ⟨harranged, hstored, hfresh, -⟩
  rcases release_spec harranged hstored (by simp) hfresh with ⟨harranged', hstored'⟩
  refine threaded_none_iff.mpr ⟨harranged', hstored'.congr (SameArena.refl _) fun other => ?_⟩
  rw [List.filter_cons_of_neg (by simp), List.mem_filter]
  constructor
  · intro hother
    refine ⟨hother, decide_eq_true ?_⟩
    intro heq
    exact hfresh (heq ▸ hother)
  · exact And.left

theorem Threaded.shrinkNew (h : Threaded l none z) (hdue : l.maxNew < l.sizes.new) :
    Completes l.shrinkNew fun passed =>
      (exists z', Threaded passed.1 none z') ∧ stageOf passed.2 = .shrinkNew ∧
        passed.1.newExcess + 1 = l.newExcess := by
  rcases threaded_none_iff.mp h with ⟨harranged, hstored⟩
  rcases z with ⟨news, middles, olds⟩
  have hsizes := harranged.sizes
  rcases List.eq_nil_or_concat news with rfl | ⟨init, e, rfl⟩
  · rw [hsizes] at hdue
    cases hdue
  · rw [List.concat_eq_append] at harranged hstored hsizes
    refine (shrinkNew_completes harranged).mono fun passed hpassed => ?_
    rcases hpassed with ⟨harranged', harena, hmove⟩
    refine ⟨⟨_, threaded_none_iff.mpr ⟨harranged', hstored.congr harena fun other => ?_⟩⟩,
      congrArg stageOf hmove, ?_⟩
    · simp [Zones.items]
    · rw [hsizes] at hdue
      simp only [newExcess, harranged'.sizes, harena.maxNew, hsizes, Zones.sizes,
        List.length_append, List.length_singleton] at hdue ⊢
      omega

theorem Threaded.shrinkOld (h : Threaded l none z) (hdue : l.maxOld < l.sizes.old) :
    Completes l.shrinkOld fun passed =>
      (exists z', Threaded passed.1 none z') ∧ stageOf passed.2 = .shrinkOld ∧
        passed.1.oldExcess + 1 = l.oldExcess := by
  rcases threaded_none_iff.mp h with ⟨harranged, hstored⟩
  rcases z with ⟨news, middles, olds⟩
  have hsizes := harranged.sizes
  cases olds with
  | nil =>
      rw [hsizes] at hdue
      cases hdue
  | cons e olds =>
      refine (shrinkOld_completes harranged).mono fun passed hpassed => ?_
      rcases hpassed with ⟨harranged', harena, hmove⟩
      refine ⟨⟨_, threaded_none_iff.mpr ⟨harranged', hstored.congr harena fun other => ?_⟩⟩,
        congrArg stageOf hmove, ?_⟩
      · simp [Zones.items]
      · rw [hsizes] at hdue
        simp only [oldExcess, harranged'.sizes, harena.maxOld, hsizes, Zones.sizes,
          List.length_cons] at hdue ⊢
        omega

theorem Threaded.growOld (h : Threaded l none z) (hroom : l.sizes.old < l.maxOld)
    (hmiddle : 0 < l.sizes.middle) :
    Completes l.growOld fun passed =>
      (exists z', Threaded passed.1 none z') ∧ stageOf passed.2 = .growOld ∧
        passed.1.oldRoom + 1 = l.oldRoom := by
  rcases threaded_none_iff.mp h with ⟨harranged, hstored⟩
  rcases z with ⟨news, middles, olds⟩
  have hsizes := harranged.sizes
  rcases List.eq_nil_or_concat middles with rfl | ⟨init, e, rfl⟩
  · rw [hsizes] at hmiddle
    cases hmiddle
  · rw [List.concat_eq_append] at harranged hstored hsizes
    refine (growOld_completes harranged).mono fun passed hpassed => ?_
    rcases hpassed with ⟨harranged', harena, hmove⟩
    refine ⟨⟨_, threaded_none_iff.mpr ⟨harranged', hstored.congr harena fun other => ?_⟩⟩,
      congrArg stageOf hmove, ?_⟩
    · simp [Zones.items]
    · rw [hsizes] at hroom
      simp only [oldRoom, harranged'.sizes, harena.maxOld, hsizes, Zones.sizes,
        List.length_append, List.length_cons, List.length_nil] at hroom ⊢
      omega

theorem Threaded.advance {stage : Stage} (h : Threaded l pending z) (hdue : Due l pending stage) :
    Completes (l.advance stage) fun reached => exists z', Threaded reached.1 reached.2 z' := by
  cases stage with
  | allocate block =>
      cases hdue
      exact .ok ⟨z, h.allocate block⟩
  | credit slot =>
      rcases hdue with ⟨rfl, hslot⟩
      exact (h.credit hslot).map fun l' h' => ⟨_, h'.1⟩
  | detach slot =>
      rcases hdue with ⟨rfl, hslot⟩
      exact (h.detach hslot).map fun l' h' => ⟨_, h'⟩
  | enterNew slot =>
      cases hdue
      exact h.enterNew.map fun l' ⟨_, h'⟩ => ⟨_, h'⟩
  | enterMiddle slot =>
      cases hdue
      exact h.enterMiddle.map fun l' ⟨_, h'⟩ => ⟨_, h'⟩
  | release slot =>
      cases hdue
      exact .ok ⟨z, h.release⟩
  | shrinkNew =>
      rcases hdue with ⟨rfl, hover⟩
      exact (h.shrinkNew hover).map fun passed h' => h'.1
  | shrinkOld =>
      rcases hdue with ⟨rfl, hover⟩
      exact (h.shrinkOld hover).map fun passed h' => h'.1
  | growOld =>
      rcases hdue with ⟨rfl, hroom, hmiddle⟩
      exact (h.growOld hroom hmiddle).map fun passed h' => h'.1
  | clear =>
      cases hdue
      exact .ok ⟨_, threaded_empty l.maxNew l.maxOld⟩

theorem Proceeds.threaded {pending' : Option Slot} (h : Proceeds l pending stages l' pending')
    (hstart : exists z, Threaded l pending z) : exists z, Threaded l' pending' z := by
  induction h with
  | refl => exact hstart
  | advanced stage _ hdue hadvance ih =>
      rcases ih with ⟨z, hz⟩
      exact (hz.advance hdue).of_eq hadvance

/-!
# Every point of the thread can be reached from both ends
-/

/-- A link, an end of the list or a boundary leads to `slot`. -/
inductive Names (l : RecencyList) (slot : Slot) : Prop where
  | newest : l.newest = some slot -> Names l slot
  | oldest : l.oldest = some slot -> Names l slot
  | lastNew : l.lastNew = some slot -> Names l slot
  | firstOld : l.firstOld = some slot -> Names l slot
  | newer {other : Slot} {e : Entry} :
      l.get? other = some e -> e.newer = some slot -> Names l slot
  | older {other : Slot} {e : Entry} :
      l.get? other = some e -> e.older = some slot -> Names l slot

/--
Nothing that `l` names is astray. `entries` are the blocks of the thread, front to back, and
`pending` is the slot of the block outside it.
-/
structure Intact (l : RecencyList) (pending : Option Slot) (entries : List (Slot × Entry)) :
    Prop where
  length_eq : entries.length = l.length
  nodup : (entries.map Prod.fst).Nodup
  older_walk : forall limit, l.length <= limit ->
    l.walk Entry.older (fun _ => true) limit l.newest = .ok entries
  newer_walk : forall limit, l.length <= limit ->
    l.walk Entry.newer (fun entry => entry.segment = .old) limit l.oldest =
      .ok (entries.filter fun e => e.2.segment = .old).reverse
  victim : Completes l.victim fun candidate =>
    (candidate = none <-> entries = []) ∧
      forall slot, candidate = some slot -> slot ∈ entries.map Prod.fst
  occupied : forall slot,
    (l.get? slot).isSome <-> slot ∈ entries.map Prod.fst ∨ pending = some slot
  apart : forall slot, pending = some slot -> slot ∉ entries.map Prod.fst
  named : forall slot, Names l slot -> slot ∈ entries.map Prod.fst
  bounded : forall slot, (l.get? slot).isSome ∨ slot ∈ l.free -> slot < l.cells.size
  vacant : forall slot, slot ∈ l.free -> l.get? slot = none
  counted : forall e, e ∈ entries -> exists sizes, l.leave e.2.segment = .ok sizes

theorem mem_entriesOf {newer older : Option Slot} {rs : List Resident} {e : Slot × Entry}
    (h : e ∈ entriesOf newer rs older) :
    exists r, r ∈ rs ∧ exists newer older, e = (r.slot, r.entry newer older) := by
  induction rs generalizing newer with
  | nil => cases h
  | cons r rs ih =>
      rcases List.mem_cons.mp h with rfl | hrest
      · exact ⟨r, by simp, _, _, rfl⟩
      · rcases ih hrest with ⟨s, hs, heq⟩
        exact ⟨s, by simp [hs], heq⟩

theorem slots_entriesOf (z : Zones) :
    (entriesOf none z.residents none).map Prod.fst = z.items.map Prod.fst := by
  rw [map_entriesOf (g := Resident.slot) (fun _ _ _ => rfl)]
  exact Zones.slotsOf_residents z

theorem length_residents (z : Zones) : z.residents.length = z.items.length := by
  simp [Zones.residents, Zones.items, Zones.tagged]

theorem not_old_front (z : Zones) (r : Resident)
    (hr : r ∈ Zones.tagged .new z.news ++ Zones.tagged .middle z.middles) : r.segment ≠ .old := by
  rcases List.mem_append.mp hr with hr | hr
  all_goals
    rcases List.mem_map.mp hr with ⟨e, -, rfl⟩
    simp

theorem filter_old_entriesOf (z : Zones) :
    (entriesOf none z.residents none).filter (fun e => e.2.segment = .old) =
      entriesOf (lastSlot (Zones.tagged .new z.news ++ Zones.tagged .middle z.middles))
        (Zones.tagged .old z.olds) none := by
  have hresidents : z.residents =
      (Zones.tagged .new z.news ++ Zones.tagged .middle z.middles) ++ Zones.tagged .old z.olds := by
    simp [Zones.residents]
  rw [hresidents, entriesOf_append, List.filter_append, Option.or_none, Option.or_none]
  have hfront : forall older,
      (entriesOf none (Zones.tagged .new z.news ++ Zones.tagged .middle z.middles) older).filter
        (fun e => e.2.segment = .old) = [] := by
    intro older
    rw [List.filter_eq_nil_iff]
    intro e he
    rcases mem_entriesOf he with ⟨r, hr, _, _, rfl⟩
    have hsegment := not_old_front z r hr
    simp [Resident.entry, hsegment]
  rw [hfront, List.nil_append, List.filter_eq_self]
  intro e he
  rcases mem_entriesOf he with ⟨r, hr, _, _, rfl⟩
  rcases List.mem_map.mp hr with ⟨_, -, rfl⟩
  rfl

theorem Arranged.older_walk (h : Arranged l z) {limit : Nat} (hlimit : l.length <= limit) :
    l.walk Entry.older (fun _ => true) limit l.newest = .ok (entriesOf none z.residents none) := by
  rw [h.linked.newest]
  apply walk_older_eq h.linked.chained
  rw [length_residents, <- h.length_eq]
  exact hlimit

theorem Arranged.newer_walk (h : Arranged l z) {limit : Nat} (hlimit : l.length <= limit) :
    l.walk Entry.newer (fun entry => entry.segment = .old) limit l.oldest =
      .ok ((entriesOf none z.residents none).filter fun e => e.2.segment = .old).reverse := by
  have hresidents : z.residents =
      (Zones.tagged .new z.news ++ Zones.tagged .middle z.middles) ++ Zones.tagged .old z.olds := by
    simp [Zones.residents]
  rw [filter_old_entriesOf, h.linked.oldest, hresidents]
  apply walk_newer_eq
  · rw [<- hresidents]
    exact h.linked.chained
  · exact not_old_front z
  · intro r hr
    rcases List.mem_map.mp hr with ⟨e, -, rfl⟩
    rfl
  · rw [<- hresidents, length_residents, <- h.length_eq]
    exact hlimit

theorem Linked.named {rs : List Resident} {r : Resident} {e : Entry} (h : Linked l rs) (hr : r ∈ rs)
    (hget : l.get? r.slot = some e) :
    (forall slot, e.newer = some slot -> slot ∈ slotsOf rs) ∧
      forall slot, e.older = some slot -> slot ∈ slotsOf rs := by
  rcases List.mem_iff_append.mp hr with ⟨as, bs, rfl⟩
  rw [h.get?_eq] at hget
  cases hget
  rw [slotsOf_append, slotsOf_cons]
  constructor
  · intro slot hslot
    exact List.mem_append_left _ (mem_slotsOf_of_lastSlot hslot)
  · intro slot hslot
    exact List.mem_append_right _ (List.mem_cons_of_mem _ (mem_slotsOf_of_firstSlot hslot))

theorem Threaded.links (h : Threaded l pending z) {other : Slot} {e : Entry}
    (hget : l.get? other = some e) :
    (forall slot, e.newer = some slot -> slot ∈ z.items.map Prod.fst) ∧
      forall slot, e.older = some slot -> slot ∈ z.items.map Prod.fst := by
  have hstored := (h.stored.occupied other).mp (by rw [hget]; rfl)
  rcases List.mem_append.mp hstored with hpending | hlinked
  · rcases h.unlinked other (Option.mem_toList.mp hpending) with ⟨block, segment, hfound⟩
    rw [hget] at hfound
    cases hfound
    constructor
    · intro slot hslot
      cases hslot
    · intro slot hslot
      cases hslot
  · rw [<- Zones.slotsOf_residents] at hlinked ⊢
    rcases List.mem_map.mp hlinked with ⟨r, hr, rfl⟩
    exact h.arranged.linked.named hr hget

theorem Threaded.named (h : Threaded l pending z) (hnames : Names l slot) :
    slot ∈ z.items.map Prod.fst := by
  have hnews : forall other, other ∈ slotsOf (Zones.tagged .new z.news) ->
      other ∈ z.items.map Prod.fst := by
    intro other hother
    rw [<- Zones.slotsOf_residents, Zones.residents, slotsOf_append]
    exact List.mem_append_left _ hother
  have holds : forall other, other ∈ slotsOf (Zones.tagged .old z.olds) ->
      other ∈ z.items.map Prod.fst := by
    intro other hother
    rw [<- Zones.slotsOf_residents, Zones.residents, slotsOf_append, slotsOf_append]
    exact List.mem_append_right _ (List.mem_append_right _ hother)
  cases hnames with
  | newest hslot =>
      rw [<- Zones.slotsOf_residents]
      exact mem_slotsOf_of_firstSlot (h.arranged.linked.newest ▸ hslot)
  | oldest hslot =>
      rw [<- Zones.slotsOf_residents]
      exact mem_slotsOf_of_lastSlot (h.arranged.linked.oldest ▸ hslot)
  | lastNew hslot => exact hnews slot (mem_slotsOf_of_lastSlot (h.arranged.lastNew ▸ hslot))
  | firstOld hslot => exact holds slot (mem_slotsOf_of_firstSlot (h.arranged.firstOld ▸ hslot))
  | newer hget hslot => exact (h.links hget).1 slot hslot
  | older hget hslot => exact (h.links hget).2 slot hslot

theorem Arranged.leave_ok (h : Arranged l z) {e : Slot × Entry}
    (he : e ∈ entriesOf none z.residents none) : exists sizes, l.leave e.2.segment = .ok sizes := by
  rcases mem_entriesOf he with ⟨r, hr, _, _, rfl⟩
  rcases Zones.exists_leave (Zones.mem_residents_iff.mp hr) with ⟨sizes, hsizes⟩
  refine ⟨sizes, ?_⟩
  rw [leave, h.sizes, Resident.entry, hsizes]

theorem Threaded.intact (h : Threaded l pending z) : Completes l.entries (Intact l pending) := by
  refine ⟨_, h.arranged.entries_eq, ?_⟩
  have hslots := slots_entriesOf z
  have hlength : (entriesOf none z.residents none).length = l.length := by
    rw [h.arranged.length_eq, <- List.length_map (f := Prod.fst), hslots, List.length_map]
  refine
    { length_eq := hlength
      nodup := hslots ▸ h.arranged.nodup
      older_walk := fun limit hlimit => h.arranged.older_walk hlimit
      newer_walk := fun limit hlimit => h.arranged.newer_walk hlimit
      victim := ?_
      occupied := ?_
      apart := ?_
      named := ?_
      bounded := ?_
      vacant := fun slot hslot => ((h.stored.mem_free slot).mp hslot).2
      counted := fun e he => h.arranged.leave_ok he }
  · refine (victim_completes h.arranged).mono fun candidate hcandidate => ?_
    rw [<- List.map_eq_nil_iff (f := Prod.fst), hslots]
    exact hcandidate.resident
  · intro slot
    rw [h.stored.occupied, List.mem_append, Option.mem_toList, hslots]
    exact or_comm
  · intro slot hslot
    rw [hslots]
    exact h.apart slot hslot
  · intro slot hslot
    rw [hslots]
    exact h.named hslot
  · rintro slot (hslot | hslot)
    · rcases Option.isSome_iff_exists.mp hslot with ⟨e, he⟩
      exact lt_size_of_get? he
    · exact ((h.stored.mem_free slot).mp hslot).1

/-!
# Operations are made of stages
-/

theorem Proceeds.advance {start : RecencyList} {first : Option Slot}
    (h : Proceeds start first stages l pending) (hstart : exists z, Threaded start first z)
    (stage : Stage) (hdue : Due l pending stage) :
    Completes (l.advance stage) fun reached =>
      Proceeds start first (stages ++ [stage]) reached.1 reached.2 := by
  rcases h.threaded hstart with ⟨z, hz⟩
  rcases hz.advance hdue with ⟨reached, hreached, -⟩
  exact ⟨reached, hreached, h.advanced stage hdue hreached⟩

theorem repeatMove_proceeds {start : RecencyList}
    {step : RecencyList -> Except Corruption (RecencyList × Move)} (stage : Stage)
    (surplus : RecencyList -> Nat)
    (hadvance : forall l, l.advance stage = (step l).map fun passed => (passed.1, none))
    (hdue : forall l, 0 < surplus l -> Due l none stage)
    (hstep : forall l z, Threaded l none z -> Due l none stage ->
      Completes (step l) fun passed =>
        (exists z', Threaded passed.1 none z') ∧ stageOf passed.2 = stage ∧
          surplus passed.1 + 1 = surplus l)
    (hstart : exists z, Threaded start none z) {n : Nat} (hn : surplus l = n)
    (h : Proceeds start none stages l none) :
    Completes (repeatMove step n l) fun passed =>
      Proceeds start none (stages ++ passed.2.map stageOf) passed.1 none := by
  induction n generalizing l stages with
  | zero =>
      refine .ok ?_
      rw [List.map_nil, List.append_nil]
      exact h
  | succ n ih =>
      have hnow : Due l none stage := hdue l (by omega)
      rcases h.threaded hstart with ⟨z, hz⟩
      rcases hstep l z hz hnow with ⟨passed, hpassed, -, hmove, hless⟩
      have hreached : l.advance stage = .ok (passed.1, none) := by
        rw [hadvance, hpassed]
        rfl
      have hleft : surplus passed.1 = n := by
        omega
      refine Completes.bind_eq hpassed ?_
      refine (ih hleft (h.advanced stage hnow hreached)).bind fun others hothers => ?_
      refine .pure ?_
      rw [List.map_cons, hmove, List.append_cons]
      exact hothers

theorem Proceeds.rebalance {start : RecencyList} (h : Proceeds start none stages l none)
    (hstart : exists z, Threaded start none z) :
    Completes l.rebalance fun balanced =>
      Proceeds start none (stages ++ balanced.2.map stageOf) balanced.1 none := by
  have hnew := repeatMove_proceeds Stage.shrinkNew newExcess (fun _ => rfl)
    (fun l hpos => ⟨rfl, Nat.lt_of_sub_pos hpos⟩) (fun l z hz hdue => hz.shrinkNew hdue.2) hstart
    rfl h
  refine hnew.bind fun first hfirst => ?_
  have hold := repeatMove_proceeds Stage.shrinkOld oldExcess (fun _ => rfl)
    (fun l hpos => ⟨rfl, Nat.lt_of_sub_pos hpos⟩) (fun l z hz hdue => hz.shrinkOld hdue.2) hstart
    rfl hfirst
  refine hold.bind fun second hsecond => ?_
  have hroom := repeatMove_proceeds Stage.growOld oldRoom (fun _ => rfl)
    (fun l hpos => ⟨rfl, Nat.lt_of_sub_pos (Nat.lt_min.mp hpos).1, (Nat.lt_min.mp hpos).2⟩)
    (fun l z hz hdue => hz.growOld hdue.2.1 hdue.2.2) hstart rfl hsecond
  refine hroom.bind fun third hthird => .pure ?_
  rw [List.map_append, List.map_append, <- List.append_assoc, <- List.append_assoc]
  exact hthird

theorem Proceeds.settle {α : Type} {start : RecencyList} (h : Proceeds start none stages l none)
    (hstart : exists z, Threaded start none z) (value : α) :
    Completes (l.settle value) fun o =>
      Proceeds start none (stages ++ o.moves.map stageOf) o.list none :=
  (h.rebalance hstart).bind fun _ hbalanced => .pure hbalanced

theorem push_proceeds (hstart : exists z, Threaded l none z) (block : Block) :
    Completes (l.push block) fun o =>
      Proceeds l none (l.opening (.push block) ++ o.moves.map stageOf) o.list none := by
  have hallocated : Proceeds l none [.allocate block] (l.allocate block).2
      (some (l.allocate block).1) :=
    .advanced (.allocate block) .refl rfl rfl
  refine (hallocated.advance hstart (.enterNew _) rfl).of_map.bind fun l₁ h₁ => ?_
  exact h₁.settle hstart _

theorem credit_proceeds (hstart : exists z, Threaded l none z) (hslot : (l.get? slot).isSome) :
    Completes (do
      let l <- l.modify slot fun entry => { entry with block := entry.block.credit }
      let l <- l.detach slot
      let l <- l.enterMiddle slot
      l.settle true) fun o =>
      Proceeds l none ([.credit slot, .detach slot, .enterMiddle slot] ++ o.moves.map stageOf)
        o.list none := by
  have hthreaded := hstart
  rcases hthreaded with ⟨z, hz⟩
  rcases hz.credit hslot with ⟨l₁, hcredit, -, hslot₁⟩
  have hadvance : l.advance (.credit slot) = .ok (l₁, none) := by
    rw [RecencyList.advance, hcredit]
    rfl
  have h₁ : Proceeds l none [.credit slot] l₁ none :=
    .advanced (.credit slot) .refl ⟨rfl, hslot⟩ hadvance
  refine Completes.bind_eq hcredit ?_
  refine (h₁.advance hstart (.detach slot) ⟨rfl, hslot₁⟩).of_map.bind fun l₂ h₂ => ?_
  refine (h₂.advance hstart (.enterMiddle slot) rfl).of_map.bind fun l₃ h₃ => ?_
  exact h₃.settle hstart true

theorem touch_proceeds (hstart : exists z, Threaded l none z) (slot : Slot) :
    Completes (l.touch slot) fun o =>
      Proceeds l none (l.opening (.touch slot) ++ o.moves.map stageOf) o.list none := by
  cases hget : l.get? slot with
  | none =>
      have hsegment : l.segment? slot = none := by
        simp [segment?, hget]
      rw [touch_of_vacant hget, opening, hsegment]
      exact .ok .refl
  | some e =>
      have hslot : (l.get? slot).isSome := by
        rw [hget]
        rfl
      have hsegment : l.segment? slot = some e.segment := by
        simp [segment?, hget]
      unfold touch
      rw [opening, hsegment]
      cases e.segment with
      | new =>
          dsimp only
          split
          · exact Proceeds.refl.settle hstart false
          · have hdetach := Proceeds.refl.advance hstart (.detach slot) ⟨rfl, hslot⟩
            refine hdetach.of_map.bind fun l₁ h₁ => ?_
            refine (h₁.advance hstart (.enterNew slot) rfl).of_map.bind fun l₂ h₂ => ?_
            exact h₂.settle hstart false
      | middle => exact credit_proceeds hstart hslot
      | old => exact credit_proceeds hstart hslot

theorem remove_proceeds (hstart : exists z, Threaded l none z) (slot : Slot) :
    Completes (l.remove slot) fun o =>
      Proceeds l none (l.opening (.remove slot) ++ o.moves.map stageOf) o.list none := by
  cases hget : l.get? slot with
  | none =>
      rw [remove_of_vacant hget, opening, hget]
      exact .ok .refl
  | some e =>
      have hslot : (l.get? slot).isSome := by
        rw [hget]
        rfl
      have hblock : l.block? slot = some e.block := by
        simp [block?, hget]
      unfold remove
      rw [hblock, opening, if_pos hslot]
      have hdetach := Proceeds.refl.advance hstart (.detach slot) ⟨rfl, hslot⟩
      refine hdetach.of_map.bind fun l₁ h₁ => ?_
      have h₂ : Proceeds l none [.detach slot, .release slot] (l₁.release slot) none :=
        h₁.advanced (.release slot) rfl rfl
      exact h₂.settle hstart (some e.block)

theorem perform_proceeds (hstart : exists z, Threaded l none z) (operation : Operation) :
    Completes (l.perform operation) fun o =>
      Proceeds l none (l.opening operation ++ o.moves.map stageOf) o.list none := by
  cases operation with
  | push block => exact (push_proceeds hstart block).map fun _ h => h
  | touch slot => exact (touch_proceeds hstart slot).map fun _ h => h
  | remove slot => exact (remove_proceeds hstart slot).map fun _ h => h
  | clear => exact .ok (.advanced .clear .refl rfl rfl)
  | victim =>
      rcases hstart with ⟨z, hz⟩
      exact (victim_completes hz.arranged).map fun _ _ => .refl

theorem Proceeds.trans {stages' : List Stage} {l₁ l₂ : RecencyList}
    {pending₁ pending₂ : Option Slot}
    (h : Proceeds l pending stages l₁ pending₁) (h' : Proceeds l₁ pending₁ stages' l₂ pending₂) :
    Proceeds l pending (stages ++ stages') l₂ pending₂ := by
  induction h' with
  | refl =>
      rw [List.append_nil]
      exact h
  | advanced stage _ hdue hadvance ih =>
      rw [<- List.append_assoc]
      exact ih.advanced stage hdue hadvance

theorem run_proceeds (hstart : exists z, Threaded l none z) (operations : List Operation) :
    Completes (l.run operations) fun ran =>
      exists stages, Proceeds l none stages ran.list none := by
  induction operations generalizing l with
  | nil => exact .ok ⟨[], .refl⟩
  | cons operation operations ih =>
      refine (perform_proceeds hstart operation).bind fun first hfirst => ?_
      refine (ih (hfirst.threaded hstart)).bind fun rest hrest => .pure ?_
      rcases hrest with ⟨stages, hrest⟩
      exact ⟨_, hfirst.trans hrest⟩

/-!
# Where operations come to rest
-/

def Rested (l : RecencyList) : Prop :=
  ¬ Due l none .shrinkNew ∧ ¬ Due l none .shrinkOld ∧ ¬ Due l none .growOld

theorem Represents.threaded {maxNew maxOld : Nat} {s : CutSequence maxNew maxOld}
    (h : Represents l s) : Threaded l none s.zones :=
  threaded_none_iff.mpr ⟨h.arranged, h.stored_zones⟩

theorem Represents.rested {maxNew maxOld : Nat} {s : CutSequence maxNew maxOld}
    (h : Represents l s) : Rested l := by
  have hnew := h.new_le
  have hold := h.old_le
  rw [<- h.maxNew_eq] at hnew
  rw [<- h.maxOld_eq] at hold
  refine ⟨fun hdue => ?_, fun hdue => ?_, fun hdue => ?_⟩
  · exact Nat.not_lt.mpr hnew hdue.2
  · exact Nat.not_lt.mpr hold hdue.2
  · -- Old is as long as its bound and the blocks behind New allow.
    have hroom := hdue.2.1
    have hmiddle := hdue.2.2
    have hlength := congrArg List.length s.items_zones
    have hnews := s.length_news_zones
    have holds := s.length_olds_zones
    rw [h.arranged.sizes, h.maxOld_eq] at hroom
    rw [h.arranged.sizes] at hmiddle
    simp only [Zones.items, Zones.sizes, List.length_append] at hroom hmiddle hlength
    omega

end RecencyList
end BlockCache

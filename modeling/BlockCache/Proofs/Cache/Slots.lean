import BlockCache.Proofs.Cache.ListWork
import BlockCache.Proofs.Cache.SegmentBalance
import BlockCache.Proofs.RecencyList.Check

/-!
# Which slot a block gets

A ledger is kept of the operations of a list and of their answers: how many blocks are
resident, how many there were at most, and which slots were released and have not been
given out again. Nothing in it is taken from the list itself.

The list agrees with the ledger at all times. A block gets the slot released last or, if
there is none, the next number, and keeps it until it is removed; so there are as many
slots as there were blocks at one time, and a cache never has more than its capacity.
-/

namespace BlockCache

namespace CutSequence

open RecencyList (Operation Answer)

variable {maxNew maxOld : Nat} {s s' : CutSequence maxNew maxOld} {held : Holding}

theorem Step.keeps {operation : Operation} {answer : Answer} (h : Step s operation answer s')
    (hheld : held ∈ s.holdings) (hremove : operation ≠ .remove held.slot)
    (hclear : operation ≠ .clear) : held ∈ s'.holdings := by
  cases h with
  | push fresh =>
      rw [holdings_push]
      exact List.mem_cons_of_mem _ hheld
  | touch slot => exact (holdings_touch_perm s slot).mem_iff.mpr hheld
  | remove slot =>
      refine mem_holdings_remove.mpr ⟨hheld, ?_⟩
      intro hslot
      exact hremove (congrArg Operation.remove hslot.symm)
  | clear => exact absurd rfl hclear
  | victim _ => exact hheld

theorem Steps.keeps {operations : List Operation} {answers : List Answer}
    (h : Steps s operations answers s') (hheld : held ∈ s.holdings)
    (hremove : .remove held.slot ∉ operations) (hclear : .clear ∉ operations) :
    held ∈ s'.holdings := by
  induction h with
  | nil s => exact hheld
  | cons hstep hsteps ih =>
      rw [List.mem_cons, not_or] at hremove hclear
      exact ih (hstep.keeps hheld (Ne.symm hremove.1) (Ne.symm hclear.1)) hremove.2 hclear.2

end CutSequence

namespace RecencyList

variable {l : RecencyList} {maxNew maxOld : Nat} {s : CutSequence maxNew maxOld}

theorem Represents.run_keeps (h : Represents l s) {slot : Slot} {block : Block}
    (hblock : l.block? slot = some block) {later : List Operation}
    (hremove : .remove slot ∉ later) (hclear : .clear ∉ later) :
    Completes (l.run later) fun ran =>
      exists block', ran.list.block? slot = some block' ∧ block'.key = block.key ∧
        block'.data = block.data := by
  rw [h.block?_eq] at hblock
  have hheld := CutSequence.mem_holdings (CutSequence.block?_eq_some_iff.mp hblock)
  refine (h.run_completes later).mono fun ran hran => ?_
  rcases hran with ⟨s', hsteps, h'⟩
  rcases CutSequence.exists_of_mem_holdings (hsteps.keeps hheld hremove hclear) with
    ⟨block', hmem, hkey, hdata⟩
  exact ⟨block', (h'.block?_eq slot).trans (CutSequence.block?_eq_some_iff.mpr hmem), hkey, hdata⟩

/-!
# The ledger
-/

/-- What operations and their answers tell about the use of slots. -/
structure Ledger where
  residents : Nat := 0
  /-- How many blocks were resident at most, since all were dropped the last time. -/
  peak : Nat := 0
  /-- Slots that were released and not given out again, the last released first. -/
  vacant : List Slot := []
deriving DecidableEq, Repr

namespace Ledger

def enter (ledger : Ledger) : Operation -> Answer -> Ledger
  | .push _, .pushed slot =>
      { residents := ledger.residents + 1
        peak := max ledger.peak (ledger.residents + 1)
        vacant := ledger.vacant.filter (· ≠ slot) }
  | .remove slot, .removed (some _) =>
      { ledger with residents := ledger.residents - 1, vacant := slot :: ledger.vacant }
  | .clear, _ => {}
  | _, _ => ledger

def follow (ledger : Ledger) : List Operation -> List Answer -> Ledger
  | operation :: operations, answer :: answers =>
      (ledger.enter operation answer).follow operations answers
  | _, _ => ledger

theorem peak_enter_le (ledger : Ledger) (operation : Operation) (answer : Answer) :
    (ledger.enter operation answer).peak <=
      max ledger.peak (ledger.enter operation answer).residents := by
  unfold enter
  split
  · exact Nat.le_refl _
  · exact Nat.le_max_left _ _
  · exact Nat.zero_le _
  · exact Nat.le_max_left _ _

end Ledger

/-- The ledger is right about the list, whose blocks are `s`. -/
structure Booked (ledger : Ledger) (l : RecencyList) (s : CutSequence maxNew maxOld) : Prop where
  represents : Represents l s
  residents_eq : ledger.residents = s.items.length
  peak_eq : ledger.peak = l.cells.size
  vacant_eq : ledger.vacant = l.free

theorem Represents.length_add_free (h : Represents l s) :
    s.items.length + l.free.length = l.cells.size := by
  have hoccupied := h.stored.occupied_eq s.nodup
  rw [CutSequence.slots, List.length_map] at hoccupied
  rw [<- hoccupied]
  exact h.stored.length_free

/-!
# How each operation uses slots
-/

theorem allocate_fst (l : RecencyList) (block : Block) :
    (l.allocate block).1 = l.free.headD l.cells.size := by
  unfold allocate
  cases l.free <;> rfl

theorem free_allocate (l : RecencyList) (block : Block) :
    (l.allocate block).2.free = l.free.tail := by
  unfold allocate
  cases l.free <;> rfl

theorem size_allocate (l : RecencyList) (block : Block) :
    (l.allocate block).2.cells.size = l.cells.size + if l.free = [] then 1 else 0 := by
  unfold allocate
  cases l.free with
  | nil => simp
  | cons slot free => simp

theorem Represents.push_arena (h : Represents l s) (block : Block) :
    Completes (l.push block) fun o =>
      o.value = (l.allocate block).1 ∧ SameArena (l.allocate block).2 o.list := by
  rcases allocate_allocated h.arranged h.stored_zones block with
    ⟨hfresh, harranged, -, hget, -, -⟩
  refine (enterNew_completes harranged hfresh hget).bind fun l₁ h₁ => ?_
  refine (settle_completes h₁.1 _).mono fun o ho => ?_
  rcases ho with ⟨hvalue, -, harena, -⟩
  exact ⟨hvalue, h₁.2.trans harena⟩

theorem Represents.touch_arena (h : Represents l s) (slot : Slot) :
    Completes (l.touch slot) fun o => SameArena l o.list := by
  cases hget : l.get? slot with
  | none =>
      rw [touch_of_vacant hget]
      exact .ok (SameArena.refl l)
  | some e =>
      have hmem := h.mem_zone hget
      by_cases hsegment : e.segment = .new
      · rw [hsegment] at hmem
        exact (touch_new_completes h.arranged hmem).mono fun o ho => ho.2.1
      · exact (touch_credit_completes h.arranged hsegment hmem).mono fun o ho => ho.2.1

theorem Represents.remove_arena (h : Represents l s) {slot : Slot} {block : Block}
    (hblock : l.block? slot = some block) :
    Completes (l.remove slot) fun o =>
      o.list.free = slot :: l.free ∧ o.list.cells.size = l.cells.size := by
  rcases Option.map_eq_some_iff.mp hblock with ⟨e, hget, rfl⟩
  unfold remove
  rw [hblock]
  refine (detach_zone h.arranged e.segment (h.mem_zone hget)).bind fun l₁ h₁ => ?_
  rcases h₁ with ⟨harranged₁, harena₁, -⟩
  have hslot : slot ∈ s.zones.items.map Prod.fst :=
    List.mem_map_of_mem (Zones.mem_items_iff.mpr ⟨e.segment, h.mem_zone hget⟩)
  have hstored₁ := h.stored_zones.congr harena₁ fun _ => Iff.rfl
  have harranged₂ :=
    (release_spec harranged₁ hstored₁ hslot (slot_not_mem_remove s.zones slot)).1
  refine (settle_completes harranged₂ _).mono fun o ho => ?_
  rcases ho with ⟨-, -, harena₂, -⟩
  have hreleased : (l₁.release slot).cells.size = l₁.cells.size := by
    simp [release]
  exact ⟨harena₂.free.trans (congrArg (slot :: ·) harena₁.free),
    (harena₂.size.trans hreleased).trans harena₁.size⟩

/-!
# The ledger of a run
-/

variable {ledger : Ledger}

theorem Booked.push (h : Booked ledger l s) (block : Block) :
    Completes (l.push block) fun o =>
      exists s' : CutSequence maxNew maxOld,
        Booked (ledger.enter (.push block) (.pushed o.value)) o.list s' := by
  rcases h.represents.push_completes block with ⟨o, hpush, hfresh, hrepresents⟩
  rcases (h.represents.push_arena block).of_eq hpush with ⟨hvalue, harena⟩
  have hlength := h.represents.length_add_free
  refine ⟨o, hpush, _, hrepresents, ?_, ?_, ?_⟩
  · exact congrArg (· + 1) h.residents_eq
  · rw [harena.size, size_allocate]
    simp only [Ledger.enter, h.peak_eq, h.residents_eq]
    cases hfree : l.free with
    | nil =>
        rw [hfree, List.length_nil] at hlength
        rw [if_pos rfl]
        omega
    | cons slot free =>
        rw [hfree, List.length_cons] at hlength
        rw [if_neg (List.cons_ne_nil _ _)]
        omega
  · rw [harena.free, free_allocate, hvalue, allocate_fst]
    simp only [Ledger.enter, h.vacant_eq]
    have hnodup := h.represents.stored.free_nodup
    cases hfree : l.free with
    | nil => rfl
    | cons slot free =>
        rw [hfree, List.nodup_cons] at hnodup
        rw [List.headD_cons, List.tail_cons, List.filter_cons_of_neg (by simp),
          List.filter_eq_self]
        intro other hother
        refine decide_eq_true ?_
        intro heq
        exact hnodup.1 (heq ▸ hother)

theorem Booked.touch (h : Booked ledger l s) (slot : Slot) :
    Completes (l.touch slot) fun o =>
      exists s' : CutSequence maxNew maxOld, Booked ledger o.list s' := by
  rcases h.represents.touch_completes slot with ⟨o, htouch, -, hrepresents⟩
  have harena := (h.represents.touch_arena slot).of_eq htouch
  refine ⟨o, htouch, _, hrepresents, ?_, ?_, ?_⟩
  · have hlength : (s.touch slot).2.items.length = s.items.length := by
      simpa [CutSequence.holdings] using (CutSequence.holdings_touch_perm s slot).length_eq
    rw [hlength]
    exact h.residents_eq
  · rw [harena.size]
    exact h.peak_eq
  · rw [harena.free]
    exact h.vacant_eq

theorem Booked.remove (h : Booked ledger l s) (slot : Slot) :
    Completes (l.remove slot) fun o =>
      exists s' : CutSequence maxNew maxOld,
        Booked (ledger.enter (.remove slot) (.removed o.value)) o.list s' := by
  cases hblock : l.block? slot with
  | none =>
      have hget : l.get? slot = none := Option.map_eq_none_iff.mp hblock
      rw [remove_of_vacant hget]
      exact .ok ⟨s, h⟩
  | some block =>
      rcases h.represents.remove_completes slot with ⟨o, hremove, hvalue, hrepresents⟩
      rcases (h.represents.remove_arena hblock).of_eq hremove with ⟨hfree, hsize⟩
      rw [<- h.represents.block?_eq, hblock] at hvalue
      have hlength := length_without s.nodup
        (CutSequence.mem_slots_of_block? ((h.represents.block?_eq slot).symm.trans hblock))
      refine ⟨o, hremove, _, hrepresents, ?_, ?_, ?_⟩
      · rw [hvalue]
        simp only [Ledger.enter, h.residents_eq, CutSequence.remove]
        omega
      · rw [hvalue, hsize]
        exact h.peak_eq
      · rw [hvalue, hfree]
        exact congrArg (slot :: ·) h.vacant_eq

theorem booked_empty (maxNew maxOld : Nat) :
    Booked {} (empty maxNew maxOld) (.empty : CutSequence maxNew maxOld) :=
  ⟨represents_empty maxNew maxOld, rfl, rfl, rfl⟩

theorem Booked.perform (h : Booked ledger l s) (operation : Operation) :
    Completes (l.perform operation) fun o =>
      exists s' : CutSequence maxNew maxOld,
        Booked (ledger.enter operation o.value) o.list s' := by
  cases operation with
  | push block => exact (h.push block).map fun _ ho => ho
  | touch slot => exact (h.touch slot).map fun _ ho => ho
  | remove slot => exact (h.remove slot).map fun _ ho => ho
  | clear =>
      refine .ok ⟨.empty, ?_⟩
      rw [h.represents.clear_eq]
      exact booked_empty maxNew maxOld
  | victim => exact (victim_completes h.represents.arranged).map fun _ _ => ⟨s, h⟩

theorem Booked.run (h : Booked ledger l s) (operations : List Operation) :
    Completes (l.run operations) fun ran =>
      exists s' : CutSequence maxNew maxOld,
        Booked (ledger.follow operations ran.value) ran.list s' := by
  induction operations generalizing ledger l s with
  | nil => exact .ok ⟨s, h⟩
  | cons operation operations ih =>
      refine (h.perform operation).bind fun first hfirst => ?_
      rcases hfirst with ⟨s₁, h₁⟩
      exact (ih h₁).bind fun rest hrest => .pure hrest

/-!
# The slots of lists and caches
-/

/-- How a list uses its slots, told from the ledger of what was done to it. -/
structure Tenanted (ledger : Ledger) (l : RecencyList) : Prop where
  length_eq : l.length = ledger.residents
  size_eq : l.cells.size = ledger.peak
  free_eq : l.free = ledger.vacant
  free_nodup : l.free.Nodup
  mem_free : forall slot, slot ∈ l.free <-> slot < l.cells.size ∧ l.get? slot = none
  push : forall block, Completes (l.push block) fun o =>
    o.value = ledger.vacant.headD ledger.peak ∧ o.list.block? o.value = some block
  stays : forall slot block later, l.block? slot = some block ->
    .remove slot ∉ later -> .clear ∉ later ->
    Completes (l.run later) fun ran =>
      exists block', ran.list.block? slot = some block' ∧ block'.key = block.key ∧
        block'.data = block.data

theorem Booked.tenanted (h : Booked ledger l s) : Tenanted ledger l where
  length_eq := by
    rw [h.represents.arranged.length_eq, s.items_zones, h.residents_eq]
  size_eq := h.peak_eq.symm
  free_eq := h.vacant_eq.symm
  free_nodup := h.represents.stored.free_nodup
  mem_free := h.represents.stored.mem_free
  push block := by
    rcases h.represents.push_completes block with ⟨o, hpush, hfresh, hrepresents⟩
    rcases (h.represents.push_arena block).of_eq hpush with ⟨hvalue, -⟩
    refine ⟨o, hpush, ?_, ?_⟩
    · rw [hvalue, allocate_fst, h.vacant_eq, h.peak_eq]
    · rw [hrepresents.block?_eq]
      exact CutSequence.block?_eq_some_iff.mpr List.mem_cons_self
  stays slot block later hblock hremove hclear := h.represents.run_keeps hblock hremove hclear

theorem Worked.size_le {capacity : Nat} {l' : RecencyList} (hworked : Worked capacity l l')
    (h : Represents l s) (hsize : l.cells.size <= capacity) :
    l'.cells.size <= capacity ∧ exists s' : CutSequence maxNew maxOld, Represents l' s' := by
  induction hworked with
  | refl => exact ⟨hsize, s, h⟩
  | performed operation hpast hperform hlength ih =>
      rename_i l₁ o
      rcases ih with ⟨hsize₁, s₁, h₁⟩
      let ledger : Ledger :=
        { residents := s₁.items.length, peak := l₁.cells.size, vacant := l₁.free }
      have hbooked : Booked ledger l₁ s₁ := ⟨h₁, rfl, rfl, rfl⟩
      rcases (hbooked.perform operation).of_eq hperform with ⟨s₂, h₂⟩
      have hpeak := ledger.peak_enter_le operation o.value
      rw [h₂.peak_eq, <- h₂.tenanted.length_eq] at hpeak
      exact ⟨Nat.le_trans hpeak (Nat.max_le.mpr ⟨hsize₁, hlength⟩), s₂, h₂.represents⟩

end RecencyList

namespace Cache

open RecencyList (Worked Ledger Tenanted)

theorem size_le_of_created {σ : Type} {config : Config} {source : σ} {created : Step σ Unit}
    {list : RecencyList} (hcreate : create config source = .ok created)
    (hworked : Worked config.capacity.toNat created.cache.list list) :
    list.cells.size <= config.capacity.toNat := by
  rw [list_of_create hcreate] at hworked
  exact (hworked.size_le (RecencyList.represents_empty _ _) (Nat.zero_le _)).1

/--
After any operations on an empty list, its slots are those that the ledger of the operations
and of their answers tells. In front of any source, and at any time, the list of a cache has
no more slots than the capacity of the cache.
-/
theorem slots_tenanted :
    (forall maxNew maxOld operations,
      Completes ((RecencyList.empty maxNew maxOld).run operations) fun ran =>
        Tenanted (Ledger.follow {} operations ran.value) ran.list) ∧
      forall (σ : Type) [BlockSource σ] (config : Config) (source : σ), config.Valid ->
        Completes (create config source) fun created =>
          (forall operations, Completes (created.cache.run operations) fun ran =>
            ran.cache.list.cells.size <= config.capacity.toNat) ∧
          forall log c, Trail created.cache log c ->
            c.list.cells.size <= config.capacity.toNat := by
  constructor
  · intro maxNew maxOld operations
    refine ((RecencyList.booked_empty maxNew maxOld).run operations).mono fun ran hran => ?_
    rcases hran with ⟨s, hbooked⟩
    exact hbooked.tenanted
  · intro σ _ config source hvalid
    rcases create_completes hvalid source with ⟨created, hcreate, -, hcoherent⟩
    refine ⟨created, hcreate, fun operations => ?_, fun log c htrail => ?_⟩
    · rcases run_completes hvalid hcoherent operations with ⟨ran, hrun, -⟩
      exact ⟨ran, hrun, size_le_of_created hcreate (run_worked hvalid hcoherent hrun)⟩
    · exact size_le_of_created hcreate (htrail.worked hvalid hcoherent).1

theorem slots_tenanted_reused :
    (Completes ((RecencyList.empty 1 1).run
        [.push ⟨⟨5⟩, ⟨0⟩, 0, [1]⟩, .push ⟨⟨5⟩, ⟨1⟩, 0, [2]⟩, .remove 0, .remove 1, .remove 1,
          .push ⟨⟨5⟩, ⟨2⟩, 0, [3]⟩]) fun ran =>
      ran.value.getLast? = some (.pushed 1) ∧
        Tenanted { residents := 1, peak := 2, vacant := [0] } ran.list) ∧
      threeBlocks.Valid ∧
      Completes (create threeBlocks eightBytes) fun created =>
        Completes (created.cache.run [.read ⟨5⟩ ⟨0⟩ [0, 0, 0, 0, 0, 0, 0, 0]]) fun ran =>
          ran.cache.stats.misses = 4 ∧ ran.cache.list.cells.size <= threeBlocks.capacity.toNat := by
  refine ⟨?_, threeBlocks_valid, ?_⟩
  · have hrun : Completes ((RecencyList.empty 1 1).run
        [.push ⟨⟨5⟩, ⟨0⟩, 0, [1]⟩, .push ⟨⟨5⟩, ⟨1⟩, 0, [2]⟩, .remove 0, .remove 1, .remove 1,
          .push ⟨⟨5⟩, ⟨2⟩, 0, [3]⟩]) fun ran =>
        ran.value = [.pushed 0, .pushed 1, .removed (some ⟨⟨5⟩, ⟨0⟩, 0, [1]⟩),
          .removed (some ⟨⟨5⟩, ⟨1⟩, 0, [2]⟩), .removed none, .pushed 1] :=
      ⟨_, rfl, rfl⟩
    rcases hrun with ⟨ran, hran, hvalue⟩
    have htenanted := (slots_tenanted.1 1 1 _).of_eq hran
    rw [hvalue] at htenanted
    refine ⟨ran, hran, ?_, htenanted⟩
    rw [hvalue]
    rfl
  · have hrun : Completes (create threeBlocks eightBytes) fun created =>
        Completes (created.cache.run [.read ⟨5⟩ ⟨0⟩ [0, 0, 0, 0, 0, 0, 0, 0]]) fun ran =>
          ran.cache.stats.misses = 4 :=
      ⟨_, rfl, _, rfl, rfl⟩
    rcases hrun with ⟨created, hcreate, ran, hran, hmisses⟩
    have hslots := (slots_tenanted.2 _ threeBlocks eightBytes threeBlocks_valid).of_eq hcreate
    exact ⟨created, hcreate, ran, hran, hmisses, (hslots.1 _).of_eq hran⟩

end Cache
end BlockCache

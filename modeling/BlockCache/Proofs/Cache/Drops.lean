import BlockCache.Proofs.Cache.Coherence
import BlockCache.Cache.Drop

/-!
# What dropping a file does

The blocks of a file are taken out one by one, and the boundaries move each time. Which
of them goes first is of no consequence: the blocks that are left are the same, with the
same boundaries, and so is the number of those that are gone.
-/

namespace BlockCache

namespace CutSequence

variable {maxNew maxOld : Nat} {s : CutSequence maxNew maxOld} {slot : Slot}

theorem length_remove (s : CutSequence maxNew maxOld) (slot : Slot) :
    (s.block? slot).toList.length + (s.remove slot).items.length = s.items.length := by
  cases hblock : s.block? slot with
  | none =>
      rw [remove_of_not_mem (block?_eq_none_iff.mp hblock)]
      exact Nat.zero_add _
  | some block =>
      have hlength : (s.remove slot).items.length + 1 = s.items.length :=
        length_without s.nodup (mem_slots_of_block? hblock)
      rw [Option.toList_some, List.length_singleton, Nat.add_comm]
      exact hlength

theorem removeAll_congr {slots slots' : List Slot}
    (h : forall slot, slot ∈ slots <-> slot ∈ slots') : s.removeAll slots = s.removeAll slots' := by
  have hfilter : forall items : List Item,
      items.filter (fun e => e.1 ∉ slots) = items.filter fun e => e.1 ∉ slots' := by
    intro items
    apply List.filter_congr
    intro e _
    simp only [h e.1]
  ext1
  · rw [items_removeAll, items_removeAll, hfilter]
  · rw [<- length_news_zones, <- length_news_zones, news_removeAll, news_removeAll, hfilter]

end CutSequence

namespace RecencyList

theorem Represents.removeAll_completes {l : RecencyList} {maxNew maxOld : Nat}
    {s : CutSequence maxNew maxOld} (h : Represents l s) (slots : List Slot) :
    Completes (l.removeAll slots) fun o =>
      o.value + (s.removeAll slots).items.length = s.items.length ∧
        Represents o.list (s.removeAll slots) := by
  induction slots generalizing l s with
  | nil => exact Completes.ok ⟨Nat.zero_add _, h⟩
  | cons slot slots ih =>
      apply (h.remove_completes slot).bind
      intro first hfirst
      rcases hfirst with ⟨hvalue, hfirst⟩
      apply (ih hfirst).bind
      intro rest hrest
      rcases hrest with ⟨hcount, hrest⟩
      apply Completes.pure
      constructor
      · have hlength := s.length_remove slot
        rw [<- hvalue, <- hcount] at hlength
        exact (Nat.add_assoc _ _ _).trans hlength
      · exact hrest

end RecencyList

namespace Cache

variable {σ : Type} {config : Config} {c : Cache σ} {s : Contents config}

/-- The ways in which the blocks of a file are dropped: there are none, or they go. -/
inductive Invalidated (c : Cache σ) (s : Contents config) (fd : FileDescriptor) :
    Step σ Nat -> Contents config -> Prop where
  | absent : (forall held, held ∈ s.holdings -> held.key.fd ≠ fd) ->
      Invalidated c s fd ⟨0, c, []⟩ s
  | dropped {slots : List Slot} {n : Nat} {list : RecencyList} {moves : List Move} :
      (forall held, held ∈ s.holdings -> (held.slot ∈ slots <-> held.key.fd = fd)) ->
      n + (s.removeAll slots).items.length = s.items.length ->
      Invalidated c s fd ⟨n, { c with list := list, index := c.index.eraseFile fd },
        moves.map .moved ++ [.invalidated fd n]⟩ (s.removeAll slots)

theorem Invalidated.count_eq {fd : FileDescriptor} {step : Step σ Nat} {s' : Contents config}
    (h : Invalidated c s fd step s') : step.value + s'.items.length = s.items.length := by
  cases h with
  | absent _ => exact Nat.zero_add _
  | dropped _ hcount => exact hcount

theorem invalidate_completes (h : Coherent config c s) (fd : FileDescriptor)
    (order : SlotOrder) :
    Completes (c.invalidate fd order) fun step =>
      exists s', Invalidated c s fd step s' ∧ Coherent config step.cache s' := by
  unfold invalidate
  cases hslots : c.index.slotsOf? fd with
  | none =>
      have habsent : forall held, held ∈ s.holdings -> held.key.fd ≠ fd :=
        fun held hheld => h.fd_ne_of_slotsOf?_eq_none hslots hheld
      exact Completes.ok ⟨s, .absent habsent, h⟩
  | some slots =>
      have hperm : forall slot, slot ∈ order.arrange slots <-> slot ∈ slots :=
        fun slot => (order.perm slots).mem_iff
      apply (h.represents.removeAll_completes (order.arrange slots)).bind
      intro removed hremoved
      rcases hremoved with ⟨hcount, hlist⟩
      rw [CutSequence.removeAll_congr hperm] at hcount hlist
      have hfile : forall held, held ∈ s.holdings -> (held.slot ∈ slots <-> held.key.fd = fd) :=
        fun held hheld => h.mem_slotsOf?_iff hslots hheld
      exact Completes.pure ⟨_, .dropped hfile hcount,
        h.toAgree.removeFile hslots hlist, h.config_eq⟩

end Cache
end BlockCache

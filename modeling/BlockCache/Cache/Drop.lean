import BlockCache.Cache.Basic

/-!
# Dropping blocks

Blocks of one file, or of all files, can be dropped at any time. Statistics are kept.

The blocks of a file are dropped one by one, in an order that nobody fixes: it is a
parameter. Slots that are released later are used again first, so the order shows in the
slots of blocks that come afterwards, and in the boundary moves that are reported.
-/

namespace BlockCache

/-- A way to go through the slots of a file. -/
structure SlotOrder where
  arrange : List Slot -> List Slot
  perm : forall slots, (arrange slots).Perm slots

namespace SlotOrder

def given : SlotOrder :=
  ⟨id, fun slots => List.Perm.refl slots⟩

def reversed : SlotOrder :=
  ⟨List.reverse, fun slots => List.reverse_perm slots⟩

end SlotOrder

namespace Cache

variable {σ : Type}

def dropSlots (c : Cache σ) (fd : FileDescriptor) (slots : List Slot) :
    Except Corruption (Step σ Nat) := do
  let removed <- c.list.removeAll slots
  let cache := { c with list := removed.list, index := c.index.eraseFile fd }
  return ⟨removed.value, cache,
    removed.moves.map .moved ++ [.invalidated fd removed.value]⟩

/-- Drops the resident blocks of a file in some order and answers how many there were. -/
def invalidate (c : Cache σ) (fd : FileDescriptor) (order : SlotOrder) :
    Except Corruption (Step σ Nat) :=
  match c.index.slotsOf? fd with
  | none => .ok ⟨0, c, []⟩
  | some slots => c.dropSlots fd (order.arrange slots)

def clear (c : Cache σ) : Step σ Unit :=
  ⟨(), { c with list := c.list.clear, index := .empty }, [.cleared]⟩

end Cache
end BlockCache

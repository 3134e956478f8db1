import BlockCache.Units

/-!
# Cached blocks

A block is the data of one block of one file, together with its reference counter: how
often it was hit since it left the New segment.
-/

namespace BlockCache

structure Block where
  fd : FileDescriptor
  index : BlockIndex
  counter : UInt64
  data : Bytes
deriving DecidableEq, Repr, Inhabited

structure BlockKey where
  fd : FileDescriptor
  index : BlockIndex
deriving DecidableEq, Repr, Inhabited

namespace Block

def key (block : Block) : BlockKey :=
  ⟨block.fd, block.index⟩

/-- One reference more; the counter stays at the largest word once it is there. -/
def credit (block : Block) : Block :=
  { block with counter := Word.addCapped block.counter 1 }

theorem key_credit (block : Block) : block.credit.key = block.key := rfl

theorem toNat_counter_credit (block : Block) :
    block.credit.counter.toNat = min (block.counter.toNat + 1) (UInt64.size - 1) :=
  Word.toNat_addCapped block.counter 1

theorem counter_credit_ne_zero (block : Block) : block.credit.counter ≠ 0 := by
  intro hzero
  have hcounter := block.toNat_counter_credit
  rw [hzero] at hcounter
  have hsize : UInt64.size = 18446744073709551616 := rfl
  simp only [UInt64.toNat_zero, hsize] at hcounter
  omega

end Block
end BlockCache

/-!
# 64-bit words

Offsets, block numbers and reference counters are 64-bit words. This module gives
the two forms of arithmetic that the rest of the library uses on them where a plain
operation could wrap: checked operations, which have no value when the exact result
does not fit, and the saturating sum, which then stops at the largest word. Each agrees
with the operation on natural numbers wherever it has a value.
-/

namespace BlockCache
namespace Word

def largest : UInt64 := 0xffffffffffffffff

def add? (a b : UInt64) : Option UInt64 :=
  if a.toNat + b.toNat < UInt64.size then some (a + b) else none

def mul? (a b : UInt64) : Option UInt64 :=
  if a.toNat * b.toNat < UInt64.size then some (a * b) else none

/-- The sum of two words, or the largest word if the sum does not fit. -/
def addCapped (a b : UInt64) : UInt64 :=
  (add? a b).getD largest

theorem toNat_largest : largest.toNat = UInt64.size - 1 := rfl

theorem add?_eq_some_iff {a b c : UInt64} :
    add? a b = some c <-> a.toNat + b.toNat = c.toNat := by
  have hc := c.toNat_lt
  simp only [add?, UInt64.size]
  split
  · rename_i h
    rw [Option.some.injEq, <- UInt64.toNat_inj, UInt64.toNat_add, Nat.mod_eq_of_lt (by omega)]
  · constructor
    · intro h
      cases h
    · omega

theorem mul?_eq_some_iff {a b c : UInt64} :
    mul? a b = some c <-> a.toNat * b.toNat = c.toNat := by
  have hc := c.toNat_lt
  simp only [mul?, UInt64.size]
  split
  · rename_i h
    rw [Option.some.injEq, <- UInt64.toNat_inj, UInt64.toNat_mul, Nat.mod_eq_of_lt (by omega)]
  · constructor
    · intro h
      cases h
    · omega

theorem toNat_addCapped (a b : UInt64) :
    (addCapped a b).toNat = min (a.toNat + b.toNat) (UInt64.size - 1) := by
  simp only [addCapped, add?, UInt64.size]
  split
  · simp only [Option.getD_some, UInt64.toNat_add]
    omega
  · simp only [Option.getD_none, toNat_largest, UInt64.size]
    omega

end Word
end BlockCache

import BlockCache.Error

/-!
# Sizes of a cache

A cache holds at most `capacity` blocks of `blockSize` bytes, at most `maxNew` of them
in the New segment and at most `maxOld` in the Old segment. The Middle segment takes
what the other two leave.
-/

namespace BlockCache

structure Config where
  maxOld : UInt64
  blockSize : UInt32
  maxNew : UInt64
  capacity : UInt64
deriving DecidableEq, Repr, Inhabited

namespace Config

inductive Flaw where
  | zeroBlockSize
  | zeroCapacity
  | reservedOverflow
  | reservedTooLarge (maxOld maxNew capacity : UInt64)
deriving DecidableEq, Repr

def Flaw.message : Flaw -> String
  | .zeroBlockSize => "block_size must be > 0"
  | .zeroCapacity => "cache_size must be > 0"
  | .reservedOverflow => "n_old_blk + n_new_blk overflows"
  | .reservedTooLarge maxOld maxNew capacity =>
      "n_old_blk=" ++ toString maxOld.toNat ++ " + n_new_blk=" ++ toString maxNew.toNat
        ++ " exceeds cache_size=" ++ toString capacity.toNat

def flaw? (config : Config) : Option Flaw :=
  if config.blockSize = 0 then
    some .zeroBlockSize
  else if config.capacity = 0 then
    some .zeroCapacity
  else
    match Word.add? config.maxOld config.maxNew with
    | none => some .reservedOverflow
    | some reserved =>
        if config.capacity < reserved then
          some (.reservedTooLarge config.maxOld config.maxNew config.capacity)
        else
          none

def validate (config : Config) : Except Error Unit :=
  match config.flaw? with
  | some flaw => .error (.invalidConfig flaw.message)
  | none => .ok ()

/-- Blocks left for Middle once New and Old are full, none for sizes that do not fit. -/
def maxMiddle (config : Config) : Nat :=
  config.capacity.toNat - config.maxOld.toNat - config.maxNew.toNat

structure Valid (config : Config) : Prop where
  blockSize_pos : 0 < config.blockSize.toNat
  capacity_pos : 0 < config.capacity.toNat
  reserved_le : config.maxOld.toNat + config.maxNew.toNat <= config.capacity.toNat

theorem flaw?_eq_none_iff {config : Config} : config.flaw? = none <-> config.Valid := by
  have hsize : config.blockSize = 0 <-> config.blockSize.toNat = 0 := by
    rw [<- UInt32.toNat_inj]
    rfl
  have hcapacity : config.capacity = 0 <-> config.capacity.toNat = 0 := by
    rw [<- UInt64.toNat_inj]
    rfl
  have hlimit := config.capacity.toNat_lt
  have hvalid : config.Valid <-> config.blockSize.toNat ≠ 0 ∧ config.capacity.toNat ≠ 0 ∧
      config.maxOld.toNat + config.maxNew.toNat <= config.capacity.toNat :=
    ⟨fun h => ⟨Nat.ne_of_gt h.blockSize_pos, Nat.ne_of_gt h.capacity_pos, h.reserved_le⟩,
      fun h => ⟨Nat.pos_of_ne_zero h.1, Nat.pos_of_ne_zero h.2.1, h.2.2⟩⟩
  rw [hvalid, flaw?]
  split
  · rename_i h
    simp [hsize.mp h]
  · rename_i hne
    split
    · rename_i h
      simp [hcapacity.mp h]
    · rename_i hne'
      have hsizeNe := mt hsize.mpr hne
      have hcapacityNe := mt hcapacity.mpr hne'
      split
      · rename_i hadd
        have hsum : ¬ config.maxOld.toNat + config.maxNew.toNat < UInt64.size := by
          intro h
          simp [Word.add?, h] at hadd
        simp only [UInt64.size] at hsum
        simp only [reduceCtorEq, false_iff]
        omega
      · rename_i reserved hadd
        rw [Word.add?_eq_some_iff] at hadd
        simp only [UInt64.lt_iff_toNat_lt, <- hadd, ite_eq_right_iff, reduceCtorEq, imp_false]
        omega

theorem validate_eq_ok_iff {config : Config} : config.validate = .ok () <-> config.Valid := by
  rw [<- flaw?_eq_none_iff, validate]
  split <;> simp_all

end Config
end BlockCache

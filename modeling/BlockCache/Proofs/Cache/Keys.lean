import BlockCache.Proofs.Cache.Drops
import BlockCache.Proofs.Cache.Accesses

/-!
# Blocks by key

No two blocks of a cache have the same key, so what is done to the block in a slot can be
said of the block with a key. This holds at every access inside a read, because accesses
keep the keys apart without any help of the index.
-/

namespace BlockCache
namespace CutSequence

variable {maxNew maxOld : Nat} {s : CutSequence maxNew maxOld} {slot : Slot} {block : Block}
  {key : BlockKey}

def keys (s : CutSequence maxNew maxOld) : List BlockKey :=
  s.items.map fun e => e.2.key

theorem mem_keys (h : (slot, block) ∈ s.items) : block.key ∈ s.keys :=
  List.mem_map.mpr ⟨_, h, rfl⟩

theorem length_keys (s : CutSequence maxNew maxOld) : s.keys.length = s.items.length :=
  List.length_map _

theorem keys_eq_map_holdings (s : CutSequence maxNew maxOld) :
    s.keys = s.holdings.map Holding.key := by
  rw [holdings, List.map_map]
  rfl

theorem eq_of_key_eq (h : s.keys.Nodup) {e e' : Item} (he : e ∈ s.items) (he' : e' ∈ s.items)
    (hkey : e.2.key = e'.2.key) : e = e' :=
  List.inj_on_of_nodup_map h he he' hkey

theorem keys_push (fresh : slot ∉ s.slots) :
    (s.push slot block fresh).keys = block.key :: s.keys := rfl

theorem keys_touch_perm (s : CutSequence maxNew maxOld) (slot : Slot) :
    (s.touch slot).2.keys.Perm s.keys := by
  rw [keys_eq_map_holdings, keys_eq_map_holdings]
  exact (holdings_touch_perm s slot).map Holding.key

/-- The slots are those of the blocks whose keys have the property. -/
def Selects (s : CutSequence maxNew maxOld) (slots : List Slot) (p : BlockKey -> Bool) : Prop :=
  forall e, e ∈ s.items -> (e.1 ∈ slots <-> p e.2.key = true)

theorem selects_slot (h : s.keys.Nodup) (hmem : (slot, block) ∈ s.items) :
    s.Selects [slot] fun key => key = block.key := by
  intro e he
  rw [List.mem_singleton, decide_eq_true_eq]
  constructor
  · intro hslot
    exact congrArg (fun e => e.2.key) (List.inj_on_of_nodup_map s.nodup he hmem hslot)
  · intro hkey
    exact congrArg Prod.fst (eq_of_key_eq h he hmem hkey)

theorem selects_file {slots : List Slot} {fd : FileDescriptor}
    (h : forall held, held ∈ s.holdings -> (held.slot ∈ slots <-> held.key.fd = fd)) :
    s.Selects slots fun key => key.fd = fd := by
  intro e he
  rw [decide_eq_true_eq]
  exact h _ (mem_holdings he)

theorem Selects.filter_items {slots : List Slot} {p : BlockKey -> Bool} (h : s.Selects slots p)
    {items : List Item} (hitems : forall e, e ∈ items -> e ∈ s.items) :
    items.filter (fun e => e.1 ∉ slots) = items.filter fun e => !p e.2.key := by
  apply List.filter_congr
  intro e he
  simp [h e (hitems e he)]

theorem Selects.keys_removeAll {slots : List Slot} {p : BlockKey -> Bool}
    (h : s.Selects slots p) : (s.removeAll slots).keys = s.keys.filter fun key => !p key := by
  rw [keys, items_removeAll, h.filter_items fun e he => he, keys, List.filter_map]
  rfl

theorem Selects.length_eq {slots : List Slot} {p : BlockKey -> Bool} {n : Nat}
    (h : s.Selects slots p) (hn : n + (s.removeAll slots).items.length = s.items.length) :
    n = (s.keys.filter p).length := by
  rw [<- length_keys, <- length_keys, h.keys_removeAll] at hn
  have hsplit := List.length_eq_length_filter_add (l := s.keys) p
  omega

end CutSequence

namespace Cache

variable {σ : Type} {config : Config} {c : Cache σ} {s s' : Contents config} {key : BlockKey}

theorem absent_iff : Absent s key <-> key ∉ s.keys := by
  rw [CutSequence.keys_eq_map_holdings, List.mem_map]
  constructor
  · intro habsent hmem
    rcases hmem with ⟨held, hheld, hkey⟩
    exact habsent held hheld hkey
  · intro hnot held hheld hkey
    exact hnot ⟨held, hheld, hkey⟩

theorem Coherent.isResident_iff_keys (h : Coherent config c s) :
    c.isResident key.fd key.index = true <-> key ∈ s.keys := by
  rw [<- Bool.not_eq_false, h.isResident_eq_false_iff, absent_iff, not_not]

theorem Invalidated.selects {fd : FileDescriptor} {step : Step σ Nat}
    (h : Invalidated c s fd step s') :
    exists slots, s.Selects slots (fun key => key.fd = fd) ∧ s' = s.removeAll slots := by
  cases h with
  | absent habsent =>
      have hnone : s.Selects [] fun key => key.fd = fd := by
        intro e he
        simp [habsent _ (CutSequence.mem_holdings he)]
      exact ⟨[], hnone, rfl⟩
  | dropped hfile _ => exact ⟨_, CutSequence.selects_file hfile, rfl⟩

theorem MadeRoom.keys_sublist {room : Step σ (Option Block)} (hroom : MadeRoom c s room s') :
    s'.keys.Sublist s.keys :=
  hroom.items_sublist.map _

theorem Accessed.nodup_keys [BlockSource σ] {step : Step σ (Except Error (Option Slot))}
    (haccessed : Accessed c s key step s') (h : s.keys.Nodup) : s'.keys.Nodup := by
  cases haccessed with
  | hit hmem hkey => exact (s.keys_touch_perm _).nodup_iff.mpr h
  | failed habsent | oversized habsent | pastEnd habsent => exact h
  | admitted habsent hanswer hstorable hroom fresh =>
      have hroomy := hroom.keys_sublist
      apply List.nodup_cons.mpr
      constructor
      · exact fun hmem => absent_iff.mp habsent (hroomy.subset hmem)
      · exact h.sublist hroomy

end Cache
end BlockCache

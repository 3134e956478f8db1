import BlockCache.Index
import Mathlib.Data.List.Nodup

/-!
# Look-ups in the membership index

The index is a map of maps, but it is used as one map from blocks to slots. Each of its
operations is described by what is found afterwards. A file whose last block is forgotten
disappears along with it.
-/

namespace BlockCache

theorem BlockKey.eq_iff {key key' : BlockKey} :
    key = key' <-> key.fd = key'.fd ∧ key.index = key'.index := by
  cases key
  cases key'
  simp

namespace Index

variable {index : Index} {fd : FileDescriptor}

abbrev FileBlocks : Type := Std.TreeMap BlockIndex Slot compare

theorem find?_alter (index : Index) (fd : FileDescriptor)
    (f : Option FileBlocks -> Option FileBlocks) (key : BlockKey) :
    find? ⟨index.files.alter fd f⟩ key =
      if key.fd = fd then (f index.files[fd]?).bind fun blocks => blocks[key.index]?
      else index.find? key := by
  by_cases hfd : key.fd = fd
  · rw [if_pos hfd, find?, hfd, Std.TreeMap.getElem?_alter_self]
    cases f index.files[fd]? <;> rfl
  · have hne : compare fd key.fd ≠ .eq := by
      rw [Std.LawfulEqCmp.compare_eq_iff_eq.ne]
      exact fun h => hfd h.symm
    rw [if_neg hfd, find?, find?, Std.TreeMap.getElem?_alter, if_neg hne]

theorem find?_empty (key : BlockKey) : empty.find? key = none := by
  simp [find?, empty]

theorem find?_insert (index : Index) (key : BlockKey) (slot : Slot) (other : BlockKey) :
    (index.insert key slot).find? other = if other = key then some slot else index.find? other := by
  rw [insert, find?_alter]
  by_cases hfd : other.fd = key.fd
  · rw [if_pos hfd, Option.bind_some, Std.TreeMap.getElem?_insert]
    simp only [Std.LawfulEqCmp.compare_eq_iff_eq]
    by_cases hindex : key.index = other.index
    · rw [if_pos hindex, if_pos (BlockKey.eq_iff.mpr ⟨hfd, hindex.symm⟩)]
    · rw [if_neg hindex, if_neg (fun h => hindex (congrArg BlockKey.index h).symm), find?, hfd]
      cases index.files[key.fd]? <;> simp
  · rw [if_neg hfd, if_neg (fun h => hfd (congrArg BlockKey.fd h))]

theorem find?_erase (index : Index) (key other : BlockKey) :
    (index.erase key).find? other = if other = key then none else index.find? other := by
  rw [erase, find?_alter]
  by_cases hfd : other.fd = key.fd
  · rw [if_pos hfd]
    cases hblocks : index.files[key.fd]? with
    | none => simp [find?, hfd, hblocks]
    | some blocks =>
        have hfind : index.find? other = blocks[other.index]? := by
          simp [find?, hfd, hblocks]
        have herased : ((some (blocks.erase key.index)).filter fun bs => !bs.isEmpty).bind
            (fun bs => bs[other.index]?) = (blocks.erase key.index)[other.index]? := by
          by_cases hempty : (blocks.erase key.index).isEmpty
          · simp [Option.filter, hempty, Std.TreeMap.getElem?_of_isEmpty hempty]
          · simp [Option.filter, hempty]
        rw [Option.map_some, herased, Std.TreeMap.getElem?_erase, hfind]
        simp only [Std.LawfulEqCmp.compare_eq_iff_eq]
        by_cases hindex : key.index = other.index
        · rw [if_pos hindex, if_pos (BlockKey.eq_iff.mpr ⟨hfd, hindex.symm⟩)]
        · rw [if_neg hindex, if_neg (fun h => hindex (congrArg BlockKey.index h).symm)]
  · rw [if_neg hfd, if_neg (fun h => hfd (congrArg BlockKey.fd h))]

theorem find?_eraseFile (index : Index) (fd : FileDescriptor) (key : BlockKey) :
    (index.eraseFile fd).find? key = if key.fd = fd then none else index.find? key := by
  rw [eraseFile, find?, find?, Std.TreeMap.getElem?_erase]
  simp only [Std.LawfulEqCmp.compare_eq_iff_eq]
  by_cases hfd : fd = key.fd
  · rw [if_pos hfd, if_pos hfd.symm]
  · rw [if_neg hfd, if_neg (fun h => hfd h.symm)]

/-- Every file in the index has a block. -/
def Tight (index : Index) : Prop :=
  forall (fd : FileDescriptor) (blocks : FileBlocks),
    index.files[fd]? = some blocks -> blocks.isEmpty = false

theorem tight_empty : Tight empty := by
  intro fd blocks h
  simp [empty] at h

theorem Tight.alter {f : Option FileBlocks -> Option FileBlocks} (h : index.Tight)
    (fd : FileDescriptor)
    (hf : forall blocks, f index.files[fd]? = some blocks -> blocks.isEmpty = false) :
    Tight ⟨index.files.alter fd f⟩ := by
  intro other blocks hother
  rw [Std.TreeMap.getElem?_alter] at hother
  split at hother
  · exact hf blocks hother
  · exact h other blocks hother

theorem Tight.insert (h : index.Tight) (key : BlockKey) (slot : Slot) :
    (index.insert key slot).Tight := by
  apply h.alter key.fd
  intro blocks hblocks
  cases hblocks
  exact Std.TreeMap.isEmpty_insert

theorem Tight.erase (h : index.Tight) (key : BlockKey) : (index.erase key).Tight := by
  apply h.alter key.fd
  intro blocks hblocks
  have hkept := (Option.filter_eq_some_iff.mp hblocks).2
  simpa using hkept

theorem Tight.eraseFile (h : index.Tight) (fd : FileDescriptor) : (index.eraseFile fd).Tight := by
  intro other blocks hother
  rw [Index.eraseFile, Std.TreeMap.getElem?_erase] at hother
  split at hother
  · cases hother
  · exact h other blocks hother

theorem values_eq_map_toList (blocks : FileBlocks) :
    blocks.values = blocks.toList.map Prod.snd := by
  have hfold : blocks.values = blocks.foldr (fun _ slot slots => slot :: slots) [] := rfl
  rw [hfold, Std.TreeMap.foldr_eq_foldr_toList]
  simp

theorem mem_slotsOf? {slots : List Slot} (h : index.slotsOf? fd = some slots) (slot : Slot) :
    slot ∈ slots <-> exists number, index.find? ⟨fd, number⟩ = some slot := by
  rcases Option.map_eq_some_iff.mp h with ⟨blocks, hblocks, rfl⟩
  simp only [values_eq_map_toList, List.mem_map, Prod.exists, exists_eq_right,
    Std.TreeMap.mem_toList_iff_getElem?_eq_some, find?, hblocks]

def pairs (index : Index) : List (BlockKey × Slot) :=
  index.files.toList.flatMap fun file => file.2.toList.map fun e => (⟨file.1, e.1⟩, e.2)

theorem mem_pairs_iff {key : BlockKey} {slot : Slot} :
    (key, slot) ∈ index.pairs <-> index.find? key = some slot := by
  simp only [pairs, List.mem_flatMap, List.mem_map, Prod.exists, Prod.mk.injEq,
    Std.TreeMap.mem_toList_iff_getElem?_eq_some]
  constructor
  · rintro ⟨fd, blocks, hfile, number, _, hblock, rfl, rfl⟩
    simp only [find?, hfile, hblock]
  · intro h
    cases hfile : index.files[key.fd]? with
    | none => simp [find?, hfile] at h
    | some blocks =>
        simp only [find?, hfile] at h
        exact ⟨key.fd, blocks, hfile, key.index, slot, h, rfl, rfl⟩

theorem nodup_pairs (index : Index) : index.pairs.Nodup := by
  rw [pairs, List.nodup_flatMap]
  constructor
  · intro file _
    have hkeys : (file.2.toList.map Prod.fst).Nodup := by
      rw [Std.TreeMap.map_fst_toList_eq_keys]
      exact Std.TreeMap.nodup_keys
    apply List.Nodup.map _ (List.Nodup.of_map _ hkeys)
    intro a b hab
    simp only [Prod.mk.injEq, BlockKey.mk.injEq, true_and] at hab
    exact Prod.ext hab.1 hab.2
  · refine Std.TreeMap.distinct_keys_toList.imp ?_
    intro a b hab
    simp only [Function.onFun, List.disjoint_left, List.mem_map]
    rintro _ ⟨x, -, rfl⟩ ⟨y, -, hy⟩
    simp only [Prod.mk.injEq, BlockKey.mk.injEq] at hy
    exact hab (Std.LawfulEqCmp.compare_eq_iff_eq.mpr hy.1.1.symm)

theorem length_pairs (index : Index) :
    index.pairs.length = (index.files.toList.flatMap fun file => file.2.toList).length := by
  simp [pairs, List.length_flatMap]

end Index
end BlockCache

import BlockCache.Proofs.Cache.Keys

/-!
# Shelves

The blocks of a cache without their slots: in order of recency, with the number of those
that are New. Every operation on the blocks is a function of the shelf alone, so slots have
no say in what becomes of the blocks.
-/

namespace BlockCache

@[ext]
structure Shelf where
  blocks : List Block
  cut : Nat
deriving DecidableEq, Repr

namespace Shelf

def news (s : Shelf) : List Block :=
  s.blocks.take s.cut

def oldCount (s : Shelf) (maxOld : Nat) : Nat :=
  min maxOld (s.blocks.length - s.cut)

def middles (s : Shelf) (maxOld : Nat) : List Block :=
  (s.blocks.drop s.cut).take (s.blocks.length - s.cut - s.oldCount maxOld)

def olds (s : Shelf) (maxOld : Nat) : List Block :=
  s.blocks.drop (s.blocks.length - s.oldCount maxOld)

def residents (s : Shelf) (maxOld : Nat) : List (Block × Segment) :=
  s.news.map (fun block => (block, .new)) ++
    ((s.middles maxOld).map (fun block => (block, .middle)) ++
      (s.olds maxOld).map fun block => (block, .old))

def empty : Shelf :=
  ⟨[], 0⟩

def find? (s : Shelf) (key : BlockKey) : Option Block :=
  s.blocks.find? fun block => block.key = key

def push (s : Shelf) (maxNew : Nat) (block : Block) : Shelf :=
  ⟨block :: s.blocks, min (s.cut + 1) maxNew⟩

def discard (s : Shelf) (p : BlockKey -> Bool) : Shelf :=
  ⟨s.blocks.filter fun block => !p block.key, (s.news.filter fun block => !p block.key).length⟩

/-- A hit: a block of New comes first, any other comes to the cut with one reference more. -/
def touch (s : Shelf) (block : Block) : Shelf :=
  let others := s.blocks.filter fun other => other.key ≠ block.key
  if block ∈ s.news then
    ⟨block :: others, s.cut⟩
  else
    ⟨others.take s.cut ++ block.credit :: others.drop s.cut, s.cut⟩

def leastReferenced : List Block -> Option Block
  | [] => none
  | block :: older =>
      match leastReferenced older with
      | none => some block
      | some least => if block.counter < least.counter then some block else some least

/-- The block to evict: the least referenced of Old, or the last of all if Old is empty. -/
def victim? (s : Shelf) (maxOld : Nat) : Option Block :=
  (leastReferenced (s.olds maxOld)).or s.blocks.getLast?

theorem leastReferenced_mem {blocks : List Block} {least : Block}
    (h : leastReferenced blocks = some least) : least ∈ blocks := by
  induction blocks generalizing least with
  | nil => cases h
  | cons block older ih =>
      rw [leastReferenced] at h
      cases hrest : leastReferenced older with
      | none =>
          rw [hrest] at h
          cases h
          exact List.mem_cons_self
      | some other =>
          simp only [hrest] at h
          split at h
          · cases h
            exact List.mem_cons_self
          · cases h
            exact List.mem_cons_of_mem block (ih hrest)

theorem leastReferenced_eq {newer older : List Block} {block : Block}
    (hnewer : forall other, other ∈ newer -> block.counter <= other.counter)
    (holder : forall other, other ∈ older -> block.counter < other.counter) :
    leastReferenced (newer ++ block :: older) = some block := by
  induction newer with
  | nil =>
      rw [List.nil_append, leastReferenced]
      cases hrest : leastReferenced older with
      | none => rfl
      | some least => exact if_pos (holder least (leastReferenced_mem hrest))
  | cons other newer ih =>
      have hrest := ih fun b hb => hnewer b (List.mem_cons_of_mem other hb)
      have hmore := hnewer other List.mem_cons_self
      rw [List.cons_append, leastReferenced, hrest]
      exact if_neg (UInt64.not_lt.mpr hmore)

theorem news_discard (s : Shelf) (p : BlockKey -> Bool) :
    (s.discard p).news = s.news.filter fun block => !p block.key := by
  have hsplit : s.blocks = s.news ++ s.blocks.drop s.cut := (List.take_append_drop _ _).symm
  show (s.blocks.filter _).take _ = _
  conv => lhs; rw [hsplit, List.filter_append]
  exact List.take_left' rfl

theorem discard_discard (s : Shelf) (p q : BlockKey -> Bool) :
    (s.discard p).discard q = s.discard fun key => p key || q key := by
  have hfilter : forall blocks : List Block,
      (blocks.filter fun block => !p block.key).filter (fun block => !q block.key) =
        blocks.filter fun block => !(p block.key || q block.key) := by
    intro blocks
    rw [List.filter_filter]
    apply List.filter_congr
    intro block _
    rw [Bool.not_or, Bool.and_comm]
  ext1
  · exact hfilter s.blocks
  · show ((s.discard p).news.filter _).length = _
    rw [news_discard, hfilter]
    rfl

theorem discard_comm (s : Shelf) (p q : BlockKey -> Bool) :
    (s.discard p).discard q = (s.discard q).discard p := by
  rw [discard_discard, discard_discard]
  simp only [Bool.or_comm]

theorem map_fst_residents {s : Shelf} (h : s.cut <= s.blocks.length) (maxOld : Nat) :
    (s.residents maxOld).map Prod.fst = s.blocks := by
  have holds : s.olds maxOld =
      (s.blocks.drop s.cut).drop (s.blocks.length - s.cut - s.oldCount maxOld) := by
    rw [olds, oldCount, List.drop_drop]
    congr 1
    omega
  have hresidents : (s.residents maxOld).map Prod.fst =
      s.news ++ (s.middles maxOld ++ s.olds maxOld) := by
    simp [residents, Function.comp_def]
  rw [hresidents, holds, middles, List.take_append_drop]
  exact List.take_append_drop _ _

theorem countP_new_residents {s : Shelf} (h : s.cut <= s.blocks.length) (maxOld : Nat) :
    (s.residents maxOld).countP (fun r => r.2 = .new) = s.cut := by
  have hnews : s.news.length = s.cut := List.length_take_of_le h
  simp [residents, List.countP_append, List.countP_map, Function.comp_def, hnews]

theorem eq_of_residents_eq {s s' : Shelf} {maxOld : Nat} (h : s.cut <= s.blocks.length)
    (h' : s'.cut <= s'.blocks.length) (heq : s.residents maxOld = s'.residents maxOld) :
    s = s' := by
  ext1
  · rw [<- map_fst_residents h maxOld, <- map_fst_residents h' maxOld, heq]
  · rw [<- countP_new_residents h maxOld, <- countP_new_residents h' maxOld, heq]

end Shelf

namespace CutSequence

variable {maxNew maxOld : Nat} {s : CutSequence maxNew maxOld} {slot : Slot} {block : Block}
  {key : BlockKey}

def shelf (s : CutSequence maxNew maxOld) : Shelf :=
  ⟨s.items.map Prod.snd, s.cut⟩

theorem keys_eq_map_shelf (s : CutSequence maxNew maxOld) :
    s.keys = s.shelf.blocks.map Block.key := by
  rw [shelf, List.map_map]
  rfl

theorem news_shelf (s : CutSequence maxNew maxOld) : s.shelf.news = s.zones.news.map Prod.snd :=
  List.map_take.symm

theorem middles_shelf (s : CutSequence maxNew maxOld) :
    s.shelf.middles maxOld = s.zones.middles.map Prod.snd := by
  simp [shelf, Shelf.middles, Shelf.oldCount, zones, Zones.ofCut, List.map_take, List.map_drop]

theorem olds_shelf (s : CutSequence maxNew maxOld) :
    s.shelf.olds maxOld = s.zones.olds.map Prod.snd := by
  simp [shelf, Shelf.olds, Shelf.oldCount, zones, Zones.ofCut, List.map_drop]

theorem residents_shelf (s : CutSequence maxNew maxOld) :
    s.shelf.residents maxOld = s.zones.residents.map fun r => (r.block, r.segment) := by
  simp [Shelf.residents, news_shelf, middles_shelf, olds_shelf, Zones.residents, Zones.tagged,
    Function.comp_def]

theorem shelf_removeAll {slots : List Slot} {p : BlockKey -> Bool} (h : s.Selects slots p) :
    (s.removeAll slots).shelf = s.shelf.discard p := by
  have hfilter : forall items : List Item, (forall e, e ∈ items -> e ∈ s.items) ->
      (items.filter fun e => e.1 ∉ slots).map Prod.snd =
        (items.map Prod.snd).filter fun block => !p block.key := by
    intro items hitems
    rw [h.filter_items hitems, List.filter_map]
    rfl
  ext1
  · show (s.removeAll slots).items.map Prod.snd = _
    rw [items_removeAll, hfilter s.items fun e he => he]
    rfl
  · show (s.removeAll slots).cut = (s.shelf.news.filter _).length
    rw [<- length_news_zones, news_removeAll, news_shelf,
      <- hfilter s.zones.news fun e he => List.mem_of_mem_take he, List.length_map]

theorem shelf_remove (h : s.keys.Nodup) (hmem : (slot, block) ∈ s.items) :
    (s.remove slot).shelf = s.shelf.discard fun key => key = block.key := by
  have hremoved := shelf_removeAll (selects_slot h hmem)
  exact hremoved

theorem mem_news_shelf_iff (h : s.keys.Nodup) (hmem : (slot, block) ∈ s.items) :
    block ∈ s.shelf.news <-> slot ∈ s.newSlots := by
  rw [news_shelf, List.mem_map]
  constructor
  · intro hnew
    rcases hnew with ⟨e, he, rfl⟩
    have hsame := eq_of_key_eq h (List.mem_of_mem_take he) hmem rfl
    rw [<- map_fst_news_zones, List.mem_map]
    exact ⟨e, he, congrArg Prod.fst hsame⟩
  · intro hnew
    exact ⟨(slot, block), mem_news hnew hmem, rfl⟩

theorem shelf_touch (h : s.keys.Nodup) (hmem : (slot, block) ∈ s.items) :
    (s.touch slot).2.shelf = s.shelf.touch block := by
  have hblock := block?_eq_some_iff.mpr hmem
  have hothers : (without slot s.items).map Prod.snd =
      s.shelf.blocks.filter fun other => other.key ≠ block.key := by
    have hblocks := congrArg Shelf.blocks (shelf_remove h hmem)
    refine hblocks.trans ?_
    apply List.filter_congr
    intro other _
    exact decide_not.symm
  unfold Shelf.touch
  by_cases hnew : slot ∈ s.newSlots
  · rw [touch_of_new hblock hnew, if_pos ((mem_news_shelf_iff h hmem).mpr hnew), <- hothers]
    rfl
  · have hbehind : block ∉ s.shelf.news := mt (mem_news_shelf_iff h hmem).mp hnew
    rw [touch_of_not_new hblock hnew, if_neg hbehind, <- hothers, <- List.map_take,
      <- List.map_drop]
    ext1
    · exact List.map_append
    · rfl

theorem find?_shelf (h : s.keys.Nodup) (hmem : (slot, block) ∈ s.items) :
    s.shelf.find? block.key = some block := by
  have hthere : block ∈ s.shelf.blocks := List.mem_map_of_mem hmem
  have hdistinct : (s.shelf.blocks.map Block.key).Nodup := s.keys_eq_map_shelf ▸ h
  cases hfind : s.shelf.find? block.key with
  | none =>
      have hnone := List.find?_eq_none.mp hfind block hthere
      simp at hnone
  | some other =>
      have hkey : other.key = block.key := by
        simpa using List.find?_some hfind
      rw [List.inj_on_of_nodup_map hdistinct (List.mem_of_find?_eq_some hfind) hthere hkey]

theorem find?_shelf_eq_none (h : key ∉ s.keys) : s.shelf.find? key = none := by
  apply List.find?_eq_none.mpr
  intro block hblock hkey
  rcases List.mem_map.mp hblock with ⟨e, he, rfl⟩
  have hsame : e.2.key = key := of_decide_eq_true hkey
  exact h (hsame ▸ mem_keys he)

theorem victim?_shelf (hcandidate : s.zones.Candidate (some slot))
    (hmem : (slot, block) ∈ s.items) : s.shelf.victim? maxOld = some block := by
  have hsame : forall other, (slot, other) ∈ s.items -> other = block := by
    intro other hother
    exact congrArg Prod.snd (List.inj_on_of_nodup_map s.nodup hother hmem rfl)
  unfold Shelf.victim?
  rw [olds_shelf]
  cases hcandidate with
  | last holds hitems =>
      rename_i last newer
      rw [s.items_zones] at hitems
      have hlast : last = block := hsame last (by simp [hitems])
      rw [holds, shelf, hitems, List.map_append, hlast]
      exact List.getLast?_concat
  | old holds hnewer holder =>
      rename_i least newer older
      have hold : (slot, least) ∈ s.zones.zone .old := by
        show (slot, least) ∈ s.zones.olds
        simp [holds]
      have hleast : least = block := hsame least (mem_items_of_zone hold)
      have hfound : Shelf.leastReferenced
          (newer.map Prod.snd ++ least :: older.map Prod.snd) = some least := by
        apply Shelf.leastReferenced_eq
        · intro other hother
          rcases List.mem_map.mp hother with ⟨e, he, rfl⟩
          exact hnewer e he
        · intro other hother
          rcases List.mem_map.mp hother with ⟨e, he, rfl⟩
          exact holder e he
      rw [holds, List.map_append, List.map_cons, hfound, hleast]
      rfl

end CutSequence
end BlockCache

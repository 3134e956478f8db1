import BlockCache.Proofs.RecencyList.Operations
import BlockCache.Proofs.RecencyList.Walks
import BlockCache.RecencyList.Run

/-!
# Sequences with one cut

A recency list without its links: the blocks with their slots, most recent first, and the
number of those that are New. Everything else follows from the bounds, since Old is always
as long as its bound and the blocks behind the cut allow.

The operations are those of a recency list. A new block comes first; a hit in New moves a
block to the front and a hit elsewhere moves it to the cut, with one reference more; and
the cut goes down with every block that is taken out before it.
-/

namespace BlockCache

@[ext]
structure CutSequence (maxNew maxOld : Nat) where
  items : List Item
  cut : Nat
  cut_le_maxNew : cut <= maxNew
  cut_le_length : cut <= items.length
  nodup : (items.map Prod.fst).Nodup

theorem nodup_without {items : List Item} (h : (items.map Prod.fst).Nodup) (slot : Slot) :
    ((without slot items).map Prod.fst).Nodup :=
  h.sublist (List.filter_sublist.map _)

theorem length_without {items : List Item} {slot : Slot} (h : (items.map Prod.fst).Nodup)
    (hslot : slot ∈ items.map Prod.fst) : (without slot items).length + 1 = items.length := by
  rcases List.mem_map.mp hslot with ⟨⟨_, block⟩, hmem, rfl⟩
  rcases List.mem_iff_append.mp hmem with ⟨as, bs, rfl⟩
  rw [without_middle h]
  simp [Nat.add_assoc]

theorem not_mem_without (slot : Slot) (items : List Item) :
    slot ∉ (without slot items).map Prod.fst := by
  rw [mem_map_fst_without]
  exact fun h => h.2 rfl

namespace CutSequence

variable {maxNew maxOld : Nat}

/-!
# Looking at a sequence
-/

def slots (s : CutSequence maxNew maxOld) : List Slot :=
  s.items.map Prod.fst

/-- The first `cut` blocks, the last `min maxOld (length - cut)`, and the rest between. -/
def zones (s : CutSequence maxNew maxOld) : Zones :=
  Zones.ofCut s.items s.cut maxOld

def block? (s : CutSequence maxNew maxOld) (slot : Slot) : Option Block :=
  (s.items.find? fun e => e.1 = slot).map Prod.snd

def newSlots (s : CutSequence maxNew maxOld) : List Slot :=
  (s.items.take s.cut).map Prod.fst

theorem block?_eq_some_iff {s : CutSequence maxNew maxOld} {slot : Slot} {block : Block} :
    s.block? slot = some block <-> (slot, block) ∈ s.items := by
  unfold block?
  constructor
  · intro h
    rcases Option.map_eq_some_iff.mp h with ⟨⟨other, _⟩, hfind, rfl⟩
    have hslot : other = slot := by
      simpa using List.find?_some hfind
    rw [<- hslot]
    exact List.mem_of_find?_eq_some hfind
  · intro h
    cases hfind : s.items.find? fun e => e.1 = slot with
    | none =>
        have hnone := List.find?_eq_none.mp hfind (slot, block) h
        simp at hnone
    | some e =>
        have hslot : e.1 = slot := by
          simpa using List.find?_some hfind
        have heq := List.inj_on_of_nodup_map s.nodup (List.mem_of_find?_eq_some hfind) h hslot
        rw [heq]
        rfl

theorem block?_eq_none_iff {s : CutSequence maxNew maxOld} {slot : Slot} :
    s.block? slot = none <-> slot ∉ s.slots := by
  rw [<- Option.not_isSome_iff_eq_none, not_iff_not, Option.isSome_iff_exists]
  simp only [block?_eq_some_iff, slots, List.mem_map, Prod.exists]
  simp

/-!
# Operations
-/

def empty : CutSequence maxNew maxOld where
  items := []
  cut := 0
  cut_le_maxNew := Nat.zero_le _
  cut_le_length := Nat.zero_le _
  nodup := List.nodup_nil

def push (s : CutSequence maxNew maxOld) (slot : Slot) (block : Block)
    (fresh : slot ∉ s.slots) : CutSequence maxNew maxOld where
  items := (slot, block) :: s.items
  cut := min (s.cut + 1) maxNew
  cut_le_maxNew := Nat.min_le_right _ _
  cut_le_length := Nat.le_trans (Nat.min_le_left _ _) (Nat.succ_le_succ s.cut_le_length)
  nodup := List.nodup_cons.mpr ⟨fresh, s.nodup⟩

theorem length_without_newSlots (s : CutSequence maxNew maxOld) (slot : Slot) :
    (without slot (s.items.take s.cut)).length =
      if slot ∈ s.newSlots then s.cut - 1 else s.cut := by
  have hnodup : ((s.items.take s.cut).map Prod.fst).Nodup :=
    s.nodup.sublist ((List.take_sublist _ _).map _)
  have hlength : (s.items.take s.cut).length = s.cut := by
    rw [List.length_take, Nat.min_eq_left s.cut_le_length]
  split
  · rename_i hslot
    have hwithout := length_without hnodup hslot
    omega
  · rename_i hslot
    rw [without_eq_self hslot, hlength]

def remove (s : CutSequence maxNew maxOld) (slot : Slot) : CutSequence maxNew maxOld where
  items := without slot s.items
  cut := if slot ∈ s.newSlots then s.cut - 1 else s.cut
  cut_le_maxNew := by
    have h := s.cut_le_maxNew
    split <;> omega
  cut_le_length := by
    rw [<- length_without_newSlots]
    conv => rhs; rw [<- List.take_append_drop s.cut s.items, without_append]
    simp
  nodup := nodup_without s.nodup slot

theorem remove_of_not_mem {s : CutSequence maxNew maxOld} {slot : Slot} (h : slot ∉ s.slots) :
    s.remove slot = s := by
  have hnew : slot ∉ s.newSlots := fun hmem => h (((List.take_sublist _ _).map _).subset hmem)
  ext1
  · exact without_eq_self h
  · exact if_neg hnew

def toFront (s : CutSequence maxNew maxOld) (slot : Slot) (block : Block)
    (resident : slot ∈ s.slots) : CutSequence maxNew maxOld where
  items := (slot, block) :: without slot s.items
  cut := s.cut
  cut_le_maxNew := s.cut_le_maxNew
  cut_le_length := by
    have h := s.cut_le_length
    have hlength := length_without s.nodup resident
    rw [List.length_cons, hlength]
    exact h
  nodup := List.nodup_cons.mpr ⟨not_mem_without slot s.items, nodup_without s.nodup slot⟩

def toCut (s : CutSequence maxNew maxOld) (slot : Slot) (block : Block)
    (resident : slot ∈ s.slots) : CutSequence maxNew maxOld where
  items := (without slot s.items).take s.cut ++ (slot, block) :: (without slot s.items).drop s.cut
  cut := s.cut
  cut_le_maxNew := s.cut_le_maxNew
  cut_le_length := by
    have h := s.cut_le_length
    have hlength := length_without s.nodup resident
    rw [List.length_append, List.length_cons, List.length_take, List.length_drop]
    omega
  nodup := by
    rw [List.map_append, List.map_cons, List.nodup_middle, <- List.map_append,
      List.take_append_drop]
    exact List.nodup_cons.mpr ⟨not_mem_without slot s.items, nodup_without s.nodup slot⟩

theorem mem_slots_of_block? {s : CutSequence maxNew maxOld} {slot : Slot} {block : Block}
    (h : s.block? slot = some block) : slot ∈ s.slots :=
  List.mem_map_of_mem (block?_eq_some_iff.mp h)

def touch (s : CutSequence maxNew maxOld) (slot : Slot) : Bool × CutSequence maxNew maxOld :=
  match h : s.block? slot with
  | none => (false, s)
  | some block =>
      if slot ∈ s.newSlots then
        (false, s.toFront slot block (mem_slots_of_block? h))
      else
        (true, s.toCut slot block.credit (mem_slots_of_block? h))

theorem touch_of_not_mem {s : CutSequence maxNew maxOld} {slot : Slot} (h : slot ∉ s.slots) :
    s.touch slot = (false, s) := by
  unfold touch
  split
  · rfl
  · rename_i hblock
    exact absurd (mem_slots_of_block? hblock) h

theorem touch_of_new {s : CutSequence maxNew maxOld} {slot : Slot} {block : Block}
    (hblock : s.block? slot = some block) (hnew : slot ∈ s.newSlots) :
    s.touch slot = (false, s.toFront slot block (mem_slots_of_block? hblock)) := by
  unfold touch
  split
  · simp_all
  · rename_i other hother
    rw [if_pos hnew]
    rw [hblock] at hother
    cases hother
    rfl

theorem touch_of_not_new {s : CutSequence maxNew maxOld} {slot : Slot} {block : Block}
    (hblock : s.block? slot = some block) (hnew : slot ∉ s.newSlots) :
    s.touch slot = (true, s.toCut slot block.credit (mem_slots_of_block? hblock)) := by
  unfold touch
  split
  · simp_all
  · rename_i other hother
    rw [if_neg hnew]
    rw [hblock] at hother
    cases hother
    rfl

theorem cut_touch (s : CutSequence maxNew maxOld) (slot : Slot) :
    (s.touch slot).2.cut = s.cut := by
  unfold touch
  split
  · rfl
  · split <;> rfl

/-!
# Runs
-/

open RecencyList (Operation Answer)

/-- One operation, its answer and the sequence afterwards. Any slot may be chosen for a new
block that is not in use. -/
inductive Step (s : CutSequence maxNew maxOld) :
    Operation -> Answer -> CutSequence maxNew maxOld -> Prop where
  | push {slot : Slot} {block : Block} (fresh : slot ∉ s.slots) :
      Step s (.push block) (.pushed slot) (s.push slot block fresh)
  | touch (slot : Slot) : Step s (.touch slot) (.touched (s.touch slot).1) (s.touch slot).2
  | remove (slot : Slot) : Step s (.remove slot) (.removed (s.block? slot)) (s.remove slot)
  | clear : Step s .clear .cleared empty
  | victim {slot : Option Slot} : s.zones.Candidate slot -> Step s .victim (.candidate slot) s

inductive Steps : CutSequence maxNew maxOld -> List Operation -> List Answer ->
    CutSequence maxNew maxOld -> Prop where
  | nil (s : CutSequence maxNew maxOld) : Steps s [] [] s
  | cons {s s₁ s₂ : CutSequence maxNew maxOld} {operation : Operation} {answer : Answer}
      {operations : List Operation} {answers : List Answer} :
      Step s operation answer s₁ -> Steps s₁ operations answers s₂ ->
      Steps s (operation :: operations) (answer :: answers) s₂

/-!
# Cuts and zones

Each operation is a change of the three segments, settled within the bounds.
-/

theorem items_zones (s : CutSequence maxNew maxOld) : s.zones.items = s.items :=
  Zones.items_ofCut s.cut_le_length maxOld

theorem mem_items_of_zone {s : CutSequence maxNew maxOld} {segment : Segment} {e : Item}
    (he : e ∈ s.zones.zone segment) : e ∈ s.items := by
  rw [<- items_zones]
  exact Zones.mem_items_iff.mpr ⟨segment, he⟩

theorem length_news_zones (s : CutSequence maxNew maxOld) : s.zones.news.length = s.cut :=
  Zones.length_news_ofCut s.cut_le_length maxOld

theorem length_olds_zones (s : CutSequence maxNew maxOld) :
    s.zones.olds.length = min maxOld (s.items.length - s.cut) :=
  Zones.length_olds_ofCut s.items s.cut maxOld

theorem map_fst_news_zones (s : CutSequence maxNew maxOld) :
    s.zones.news.map Prod.fst = s.newSlots := rfl

theorem zones_empty : (empty : CutSequence maxNew maxOld).zones = ⟨[], [], []⟩ := by
  simp [zones, empty, Zones.ofCut]

theorem zones_eq_settled {s : CutSequence maxNew maxOld} {z : Zones} (hitems : z.items = s.items)
    (hcut : min z.news.length maxNew = s.cut) : s.zones = z.settled maxNew maxOld := by
  rw [Zones.settled_eq_ofCut, hitems, hcut]
  rfl

theorem zones_push (s : CutSequence maxNew maxOld) (slot : Slot) (block : Block)
    (fresh : slot ∉ s.slots) :
    (s.push slot block fresh).zones = (s.zones.push slot block).settled maxNew maxOld := by
  apply zones_eq_settled
  · exact congrArg (List.cons (slot, block)) s.items_zones
  · simp [Zones.push, push, length_news_zones]

theorem length_news_remove (s : CutSequence maxNew maxOld) (slot : Slot) :
    (s.zones.remove slot).news.length = (s.remove slot).cut :=
  s.length_without_newSlots slot

theorem zones_remove (s : CutSequence maxNew maxOld) (slot : Slot) :
    (s.remove slot).zones = (s.zones.remove slot).settled maxNew maxOld := by
  apply zones_eq_settled
  · rw [Zones.items_remove, items_zones]
    rfl
  · rw [length_news_remove, Nat.min_eq_left (s.remove slot).cut_le_maxNew]

theorem zones_toFront {s : CutSequence maxNew maxOld} {slot : Slot} (hnew : slot ∈ s.newSlots)
    (block : Block) (resident : slot ∈ s.slots) :
    (s.toFront slot block resident).zones =
      ((s.zones.remove slot).push slot block).settled maxNew maxOld := by
  apply zones_eq_settled
  · have hitems := Zones.items_remove s.zones slot
    rw [items_zones] at hitems
    exact congrArg (List.cons (slot, block)) hitems
  · have hlength := length_news_remove s slot
    have hpos : 0 < s.cut := by
      rw [<- length_news_zones, <- List.length_map Prod.fst, map_fst_news_zones]
      exact List.length_pos_of_mem hnew
    have hcut := s.cut_le_maxNew
    simp only [remove, if_pos hnew] at hlength
    simp only [Zones.push, List.length_cons, hlength, toFront]
    omega

theorem zones_toCut {s : CutSequence maxNew maxOld} {slot : Slot} (hnew : slot ∉ s.newSlots)
    (block : Block) (resident : slot ∈ s.slots) :
    (s.toCut slot block resident).zones =
      ((s.zones.remove slot).promote slot block).settled maxNew maxOld := by
  have hnews : (s.zones.remove slot).news = s.zones.news := without_eq_self hnew
  have hlength : (s.zones.remove slot).news.length = s.cut := by
    rw [hnews, length_news_zones]
  apply zones_eq_settled
  · have hitems := Zones.items_remove s.zones slot
    rw [items_zones] at hitems
    simp only [toCut, <- hitems]
    simp [Zones.items, Zones.promote, <- hlength]
  · exact (congrArg (min · maxNew) hlength).trans (Nat.min_eq_left s.cut_le_maxNew)

/-!
# The front segment

What each operation makes of New, whatever the blocks behind it are.
-/

theorem take_without {s : CutSequence maxNew maxOld} {slot : Slot} (hnew : slot ∉ s.newSlots) :
    (without slot s.items).take s.cut = s.zones.news := by
  have hsplit : without slot s.items = s.zones.news ++ without slot (s.items.drop s.cut) := by
    conv => lhs; rw [<- List.take_append_drop s.cut s.items, without_append]
    rw [without_eq_self hnew]
    rfl
  rw [hsplit]
  exact List.take_left' s.length_news_zones

theorem news_push (s : CutSequence maxNew maxOld) (slot : Slot) (block : Block)
    (fresh : slot ∉ s.slots) :
    (s.push slot block fresh).zones.news = ((slot, block) :: s.zones.news).take maxNew := by
  rw [zones_push, Zones.news_settled]
  rfl

theorem news_remove (s : CutSequence maxNew maxOld) (slot : Slot) :
    (s.remove slot).zones.news = without slot s.zones.news := by
  have hlength : (without slot s.zones.news).length <= maxNew :=
    Nat.le_trans (Nat.le_of_eq (length_news_remove s slot)) (s.remove slot).cut_le_maxNew
  rw [zones_remove, Zones.news_settled]
  exact List.take_of_length_le hlength

theorem news_toFront {s : CutSequence maxNew maxOld} {slot : Slot} (hnew : slot ∈ s.newSlots)
    (block : Block) (resident : slot ∈ s.slots) :
    (s.toFront slot block resident).zones.news = (slot, block) :: without slot s.zones.news := by
  have hnodup : (s.zones.news.map Prod.fst).Nodup :=
    s.nodup.sublist ((List.take_sublist _ _).map _)
  have hlength : ((slot, block) :: without slot s.zones.news).length <= maxNew := by
    rw [List.length_cons, length_without hnodup hnew, length_news_zones]
    exact s.cut_le_maxNew
  rw [zones_toFront hnew, Zones.news_settled]
  exact List.take_of_length_le hlength

theorem news_toCut {s : CutSequence maxNew maxOld} {slot : Slot} (hnew : slot ∉ s.newSlots)
    (block : Block) (resident : slot ∈ s.slots) :
    (s.toCut slot block resident).zones.news = s.zones.news := by
  have hnews : (s.zones.remove slot).news = s.zones.news := without_eq_self hnew
  have hlength : s.zones.news.length <= maxNew := by
    rw [length_news_zones]
    exact s.cut_le_maxNew
  rw [zones_toCut hnew, Zones.news_settled]
  exact (congrArg (List.take maxNew) hnews).trans (List.take_of_length_le hlength)

end CutSequence
end BlockCache

import BlockCache.Proofs.RecencyList.Links

/-!
# Segments of the thread

The three segments of a recency list as three plain sequences, and when a list is
arranged in this way: its thread runs through New, Middle and Old in this order, every
entry counts for the segment it stands in, and boundaries and counts agree.

Inserting and taking out a block may leave a segment with too many or too few blocks.
Whatever the segments are then, rebalancing keeps the order of the blocks: New keeps what
its bound allows, and Old becomes as long as its bound and the other blocks allow.
-/

namespace BlockCache

abbrev Item : Type := Slot × Block

structure Zones where
  news : List Item
  middles : List Item
  olds : List Item
deriving DecidableEq, Repr

namespace Zones

def items (z : Zones) : List Item :=
  z.news ++ (z.middles ++ z.olds)

def sizes (z : Zones) : SegmentSizes :=
  { new := z.news.length, middle := z.middles.length, old := z.olds.length }

def tagged (segment : Segment) (items : List Item) : List Resident :=
  items.map fun e => ⟨e.1, e.2, segment⟩

def residents (z : Zones) : List Resident :=
  tagged .new z.news ++ (tagged .middle z.middles ++ tagged .old z.olds)

@[simp] theorem tagged_nil (segment : Segment) : tagged segment [] = [] := rfl

@[simp] theorem tagged_cons (segment : Segment) (e : Item) (items : List Item) :
    tagged segment (e :: items) = ⟨e.1, e.2, segment⟩ :: tagged segment items := rfl

@[simp] theorem tagged_append (segment : Segment) (as bs : List Item) :
    tagged segment (as ++ bs) = tagged segment as ++ tagged segment bs :=
  List.map_append

@[simp] theorem slotsOf_tagged (segment : Segment) (items : List Item) :
    RecencyList.slotsOf (tagged segment items) = items.map Prod.fst := by
  simp [RecencyList.slotsOf, tagged]

theorem slotsOf_residents (z : Zones) :
    RecencyList.slotsOf z.residents = z.items.map Prod.fst := by
  simp [residents, items]

theorem map_residents (z : Zones) :
    z.residents.map (fun r => (r.slot, r.block)) = z.items := by
  simp [residents, items, tagged, Function.comp_def]

theorem eq_of_items_eq {z z' : Zones} (hitems : z.items = z'.items)
    (hnews : z.news.length = z'.news.length) (holds : z.olds.length = z'.olds.length) :
    z = z' := by
  cases z with
  | mk news middles olds =>
      cases z' with
      | mk news' middles' olds' =>
          rcases List.append_inj hitems hnews with ⟨rfl, hrest⟩
          rcases List.append_inj' hrest holds with ⟨rfl, rfl⟩
          rfl

def ofCut (items : List Item) (k maxOld : Nat) : Zones :=
  let old := min maxOld (items.length - k)
  { news := items.take k
    middles := (items.drop k).take (items.length - k - old)
    olds := items.drop (items.length - old) }

theorem items_ofCut {items : List Item} {k : Nat} (hk : k <= items.length) (maxOld : Nat) :
    (ofCut items k maxOld).items = items := by
  have hdrop : items.drop (items.length - min maxOld (items.length - k)) =
      (items.drop k).drop (items.length - k - min maxOld (items.length - k)) := by
    rw [List.drop_drop]
    congr 1
    omega
  simp only [Zones.items, ofCut, hdrop, List.take_append_drop]

theorem length_news_ofCut {items : List Item} {k : Nat} (hk : k <= items.length) (maxOld : Nat) :
    (ofCut items k maxOld).news.length = k := by
  simp [ofCut, hk]

theorem length_olds_ofCut (items : List Item) (k maxOld : Nat) :
    (ofCut items k maxOld).olds.length = min maxOld (items.length - k) := by
  simp only [ofCut, List.length_drop]
  omega

theorem eq_ofCut {z : Zones} {maxOld : Nat}
    (holds : z.olds.length = min maxOld (z.items.length - z.news.length)) :
    z = ofCut z.items z.news.length maxOld := by
  have hk : z.news.length <= z.items.length := by
    simp [items]
  apply eq_of_items_eq
  · rw [items_ofCut hk]
  · rw [length_news_ofCut hk]
  · rw [length_olds_ofCut, holds]

/-!
# Moving the boundaries

The three loops of rebalancing as functions on zones. None of them changes the order of
the blocks, so their combined effect is a cut of the same sequence.
-/

def trimNew (z : Zones) (maxNew : Nat) : Zones :=
  ⟨z.news.take maxNew, z.news.drop maxNew ++ z.middles, z.olds⟩

def oldSurplus (z : Zones) (maxOld : Nat) : Nat :=
  z.olds.length - maxOld

def trimOld (z : Zones) (maxOld : Nat) : Zones :=
  ⟨z.news, z.middles ++ z.olds.take (z.oldSurplus maxOld), z.olds.drop (z.oldSurplus maxOld)⟩

/-- How many blocks of Middle stay there while Old takes what it has room for. -/
def middleRest (z : Zones) (maxOld : Nat) : Nat :=
  z.middles.length - min (maxOld - z.olds.length) z.middles.length

def fillOld (z : Zones) (maxOld : Nat) : Zones :=
  ⟨z.news, z.middles.take (z.middleRest maxOld), z.middles.drop (z.middleRest maxOld) ++ z.olds⟩

def settled (z : Zones) (maxNew maxOld : Nat) : Zones :=
  ((z.trimNew maxNew).trimOld maxOld).fillOld maxOld

theorem news_settled (z : Zones) (maxNew maxOld : Nat) :
    (z.settled maxNew maxOld).news = z.news.take maxNew := rfl

/-- The moves of the three loops, in the order in which blocks pass. -/
def moves (z : Zones) (maxNew maxOld : Nat) : List Move :=
  let trimmed := z.trimNew maxNew
  let topped := trimmed.trimOld maxOld
  (z.news.drop maxNew).reverse.map (fun e => ⟨e.1, .new, .middle⟩)
    ++ (trimmed.olds.take (trimmed.oldSurplus maxOld)).map (fun e => ⟨e.1, .old, .middle⟩)
    ++ (topped.middles.drop (topped.middleRest maxOld)).reverse.map
      (fun e => ⟨e.1, .middle, .old⟩)

theorem items_trimNew (z : Zones) (maxNew : Nat) : (z.trimNew maxNew).items = z.items := by
  simp only [trimNew, items, <- List.append_assoc, List.take_append_drop]

theorem items_trimOld (z : Zones) (maxOld : Nat) : (z.trimOld maxOld).items = z.items := by
  simp [trimOld, items]

theorem items_fillOld (z : Zones) (maxOld : Nat) : (z.fillOld maxOld).items = z.items := by
  simp only [fillOld, items]
  rw [<- List.append_assoc (z.middles.take _), List.take_append_drop]

theorem length_olds_trimOld (z : Zones) (maxOld : Nat) :
    (z.trimOld maxOld).olds.length = min z.olds.length maxOld := by
  simp only [trimOld, oldSurplus, List.length_drop]
  omega

theorem length_olds_fillOld {z : Zones} {maxOld : Nat} (h : z.olds.length <= maxOld) :
    (z.fillOld maxOld).olds.length = min maxOld (z.items.length - z.news.length) := by
  simp only [fillOld, middleRest, items, List.length_append, List.length_drop]
  omega

theorem settled_eq_ofCut (z : Zones) (maxNew maxOld : Nat) :
    z.settled maxNew maxOld = ofCut z.items (min z.news.length maxNew) maxOld := by
  have hitems : (z.settled maxNew maxOld).items = z.items := by
    rw [settled, items_fillOld, items_trimOld, items_trimNew]
  have hnews : (z.settled maxNew maxOld).news.length = min z.news.length maxNew := by
    simp [settled, fillOld, trimOld, trimNew, Nat.min_comm]
  have holds : (z.settled maxNew maxOld).olds.length =
      min maxOld (z.items.length - (z.settled maxNew maxOld).news.length) := by
    rw [settled, length_olds_fillOld, items_trimOld, items_trimNew]
    · rfl
    · rw [length_olds_trimOld]
      exact Nat.min_le_right _ _
  have hcut := eq_ofCut (hitems.symm ▸ holds)
  rw [hitems, hnews] at hcut
  exact hcut

end Zones

namespace RecencyList

variable {l l' : RecencyList} {z : Zones} {slot : Slot} {block : Block}

/-!
# Lists arranged in zones
-/

structure Arranged (l : RecencyList) (z : Zones) : Prop where
  linked : Linked l z.residents
  lastNew : l.lastNew = lastSlot (Zones.tagged .new z.news)
  firstOld : l.firstOld = firstSlot (Zones.tagged .old z.olds)
  sizes : l.sizes = z.sizes

theorem Arranged.nodup (h : Arranged l z) : (z.items.map Prod.fst).Nodup := by
  rw [<- Zones.slotsOf_residents]
  exact h.linked.nodup

theorem Linked.rebound {rs : List Resident} (h : Linked l rs) (sizes : SegmentSizes)
    (lastNew firstOld : Option Slot) :
    Linked { l with sizes := sizes, lastNew := lastNew, firstOld := firstOld } rs :=
  ⟨h.chained, h.newest, h.oldest, h.nodup⟩

theorem SameArena.refl (l : RecencyList) : SameArena l l :=
  ⟨rfl, rfl, fun _ => rfl, rfl, rfl⟩

theorem SameArena.rebound (h : SameArena l l') (sizes : SegmentSizes)
    (lastNew firstOld : Option Slot) :
    SameArena l { l' with sizes := sizes, lastNew := lastNew, firstOld := firstOld } :=
  ⟨h.free, h.size, h.occupied, h.maxNew, h.maxOld⟩

theorem leave?_enter (sizes : SegmentSizes) (segment : Segment) :
    (sizes.enter segment).leave? segment = some sizes := by
  cases segment <;> simp [SegmentSizes.enter, SegmentSizes.leave?]

theorem lastSlot_remove {as bs : List Resident} {r : Resident} (h : r.slot ∉ slotsOf bs) :
    (if lastSlot (as ++ r :: bs) = some r.slot then lastSlot as else lastSlot (as ++ r :: bs)) =
      lastSlot (as ++ bs) := by
  cases hbs : lastSlot bs with
  | none => simp [hbs]
  | some slot =>
      have hne : slot ≠ r.slot := by
        intro heq
        exact h (heq ▸ mem_slotsOf_of_lastSlot hbs)
      simp [hbs, hne]

theorem firstSlot_remove {as bs : List Resident} {r : Resident} (h : r.slot ∉ slotsOf as) :
    (if firstSlot (as ++ r :: bs) = some r.slot then firstSlot bs
      else firstSlot (as ++ r :: bs)) = firstSlot (as ++ bs) := by
  cases has : firstSlot as with
  | none => simp [has]
  | some slot =>
      have hne : slot ≠ r.slot := by
        intro heq
        exact h (heq ▸ mem_slotsOf_of_firstSlot has)
      simp [has, hne]

/-!
# Taking out a block

The neighbours of the block may lie in other segments; a boundary that stood on it moves
to the neighbour in its own segment, if there is one.
-/

theorem ne_of_firstSlot {rs : List Resident} {boundary : Option Slot}
    (hboundary : boundary = firstSlot rs) (h : slot ∉ slotsOf rs) : boundary ≠ some slot := by
  intro heq
  exact h (mem_slotsOf_of_firstSlot (hboundary.symm.trans heq))

theorem ne_of_lastSlot {rs : List Resident} {boundary : Option Slot}
    (hboundary : boundary = lastSlot rs) (h : slot ∉ slotsOf rs) : boundary ≠ some slot := by
  intro heq
  exact h (mem_slotsOf_of_lastSlot (hboundary.symm.trans heq))

theorem Arranged.slot_not_mem {as bs : List Resident} {r : Resident} (h : Arranged l z)
    (hz : z.residents = as ++ r :: bs) : r.slot ∉ slotsOf as ∧ r.slot ∉ slotsOf bs := by
  have hnodup := h.linked.nodup
  rw [hz, nodup_slots_middle_iff, slotsOf_append, List.mem_append, not_or] at hnodup
  exact hnodup.1

theorem detach_arranged {z' : Zones} {as bs : List Resident} {r : Resident} (h : Arranged l z)
    (hz : z.residents = as ++ r :: bs) (hz' : z'.residents = as ++ bs)
    (hsizes : z.sizes = z'.sizes.enter r.segment)
    (hlastNew : (if l.lastNew = some r.slot then lastSlot as else l.lastNew) =
      lastSlot (Zones.tagged .new z'.news))
    (hfirstOld : (if l.firstOld = some r.slot then firstSlot bs else l.firstOld) =
      firstSlot (Zones.tagged .old z'.olds)) :
    Completes (l.detach r.slot) fun l' =>
      Arranged l' z' ∧ SameArena l l' ∧ l'.get? r.slot = some (r.entry none none) := by
  have hlinked : Linked l (as ++ r :: bs) := hz ▸ h.linked
  have hleave : l.sizes.leave? r.segment = some z'.sizes := by
    rw [h.sizes, hsizes, leave?_enter]
  refine (detach_completes hlinked hleave).mono fun l' h' => ?_
  rcases h' with ⟨hlinked', harena, hget, hsizes', hlastNew', hfirstOld'⟩
  exact ⟨⟨hz' ▸ hlinked', hlastNew'.trans hlastNew, hfirstOld'.trans hfirstOld, hsizes'⟩,
    harena, hget⟩

theorem detach_news {as bs middles olds : List Item}
    (h : Arranged l ⟨as ++ (slot, block) :: bs, middles, olds⟩) :
    Completes (l.detach slot) fun l' =>
      Arranged l' ⟨as ++ bs, middles, olds⟩ ∧ SameArena l l' ∧
        l'.get? slot = some ⟨block, .new, none, none⟩ := by
  have hz : Zones.residents ⟨as ++ (slot, block) :: bs, middles, olds⟩ =
      Zones.tagged .new as ++ ⟨slot, block, .new⟩ ::
        (Zones.tagged .new bs ++ (Zones.tagged .middle middles ++ Zones.tagged .old olds)) := by
    simp [Zones.residents]
  rcases h.slot_not_mem hz with ⟨_, hbs⟩
  simp only [slotsOf_append, List.mem_append, not_or] at hbs
  refine detach_arranged h hz (by simp [Zones.residents]) ?_ ?_ ?_
  · simp [Zones.sizes, SegmentSizes.enter, Nat.add_assoc]
  · rw [h.lastNew, Zones.tagged_append, Zones.tagged_append, Zones.tagged_cons]
    exact lastSlot_remove hbs.1
  · rw [if_neg (ne_of_firstSlot h.firstOld hbs.2.2)]
    exact h.firstOld

theorem detach_middles {news as bs olds : List Item}
    (h : Arranged l ⟨news, as ++ (slot, block) :: bs, olds⟩) :
    Completes (l.detach slot) fun l' =>
      Arranged l' ⟨news, as ++ bs, olds⟩ ∧ SameArena l l' ∧
        l'.get? slot = some ⟨block, .middle, none, none⟩ := by
  have hz : Zones.residents ⟨news, as ++ (slot, block) :: bs, olds⟩ =
      (Zones.tagged .new news ++ Zones.tagged .middle as) ++ ⟨slot, block, .middle⟩ ::
        (Zones.tagged .middle bs ++ Zones.tagged .old olds) := by
    simp [Zones.residents]
  rcases h.slot_not_mem hz with ⟨has, hbs⟩
  simp only [slotsOf_append, List.mem_append, not_or] at has hbs
  refine detach_arranged h hz (by simp [Zones.residents]) ?_ ?_ ?_
  · simp [Zones.sizes, SegmentSizes.enter, Nat.add_assoc]
  · rw [if_neg (ne_of_lastSlot h.lastNew has.1)]
    exact h.lastNew
  · rw [if_neg (ne_of_firstSlot h.firstOld hbs.2)]
    exact h.firstOld

theorem detach_olds {news middles as bs : List Item}
    (h : Arranged l ⟨news, middles, as ++ (slot, block) :: bs⟩) :
    Completes (l.detach slot) fun l' =>
      Arranged l' ⟨news, middles, as ++ bs⟩ ∧ SameArena l l' ∧
        l'.get? slot = some ⟨block, .old, none, none⟩ := by
  have hz : Zones.residents ⟨news, middles, as ++ (slot, block) :: bs⟩ =
      (Zones.tagged .new news ++ (Zones.tagged .middle middles ++ Zones.tagged .old as)) ++
        ⟨slot, block, .old⟩ :: Zones.tagged .old bs := by
    simp [Zones.residents]
  rcases h.slot_not_mem hz with ⟨has, _⟩
  simp only [slotsOf_append, List.mem_append, not_or] at has
  refine detach_arranged h hz (by simp [Zones.residents]) ?_ ?_ ?_
  · simp [Zones.sizes, SegmentSizes.enter, Nat.add_assoc]
  · rw [if_neg (ne_of_lastSlot h.lastNew has.1)]
    exact h.lastNew
  · rw [h.firstOld, Zones.tagged_append, Zones.tagged_append, Zones.tagged_cons]
    exact firstSlot_remove has.2.2

/-!
# Putting in a block
-/

theorem enterNew_completes {segment : Segment} {newer older : Option Slot} (h : Arranged l z)
    (hfresh : slot ∉ z.items.map Prod.fst)
    (hget : l.get? slot = some ⟨block, segment, newer, older⟩) :
    Completes (l.enterNew slot) fun l' =>
      Arranged l' ⟨(slot, block) :: z.news, z.middles, z.olds⟩ ∧ SameArena l l' := by
  rw [<- Zones.slotsOf_residents] at hfresh
  have hlinked : Linked l ([] ++ z.residents) := h.linked
  have hinsert := insertBehind_completes (r := ⟨slot, block, segment⟩) hlinked hfresh hget
  refine hinsert.bind fun l₁ h₁ => ?_
  have hmodify := modify_completes (f := fun entry => { entry with segment := .new }) h₁.1
    (fun _ _ => rfl)
  refine hmodify.bind fun l₂ h₂ => ?_
  have hrelinked := h₁.2.trans h₂.2
  apply Completes.pure
  refine ⟨⟨h₂.1.rebound _ _ _, ?_, ?_, ?_⟩, hrelinked.toSameArena.rebound _ _ _⟩
  · rw [hrelinked.lastNew, h.lastNew, Zones.tagged_cons, lastSlot_cons]
  · rw [hrelinked.firstOld, h.firstOld]
  · rw [hrelinked.sizes, h.sizes]
    rfl

theorem enterMiddle_completes {segment : Segment} {newer older : Option Slot}
    (h : Arranged l z) (hfresh : slot ∉ z.items.map Prod.fst)
    (hget : l.get? slot = some ⟨block, segment, newer, older⟩) :
    Completes (l.enterMiddle slot) fun l' =>
      Arranged l' ⟨z.news, (slot, block) :: z.middles, z.olds⟩ ∧ SameArena l l' := by
  rw [<- Zones.slotsOf_residents] at hfresh
  have hinsert := insertBehind_completes (r := ⟨slot, block, segment⟩) h.linked hfresh hget
  rw [<- h.lastNew] at hinsert
  refine hinsert.bind fun l₁ h₁ => ?_
  have hmodify := modify_completes (f := fun entry => { entry with segment := .middle }) h₁.1
    (fun _ _ => rfl)
  refine hmodify.bind fun l₂ h₂ => ?_
  have hrelinked := h₁.2.trans h₂.2
  apply Completes.pure
  refine ⟨⟨h₂.1.rebound _ _ _, ?_, ?_, ?_⟩, hrelinked.toSameArena.rebound _ _ _⟩
  · rw [hrelinked.lastNew, h.lastNew]
  · rw [hrelinked.firstOld, h.firstOld]
  · rw [hrelinked.sizes, h.sizes]
    rfl

/-!
# Passing one block over a boundary
-/

theorem reassign_completes {as bs : List Resident} {r : Resident} {sizes : SegmentSizes}
    (h : Linked l (as ++ r :: bs)) (hsizes : l.sizes = sizes.enter r.segment)
    (target : Segment) :
    Completes (l.reassign r.slot target) fun passed =>
      Linked passed.1 (as ++ ⟨r.slot, r.block, target⟩ :: bs) ∧ SameArena l passed.1 ∧
        passed.1.lastNew = l.lastNew ∧ passed.1.firstOld = l.firstOld ∧
        passed.1.sizes = sizes.enter target ∧ passed.2 = ⟨r.slot, r.segment, target⟩ := by
  have hleave : l.leave r.segment = .ok sizes := by
    simp [leave, hsizes, leave?_enter]
  refine Completes.bind_eq (entry_eq_ok h.get?_eq) (Completes.bind_eq hleave ?_)
  have hmodify := modify_completes (f := fun entry => { entry with segment := target }) h
    (fun _ _ => rfl)
  refine hmodify.bind fun l' h' => ?_
  apply Completes.pure
  exact ⟨h'.1.rebound _ _ _, h'.2.toSameArena.rebound _ _ _, h'.2.lastNew, h'.2.firstOld, rfl,
    rfl⟩

theorem shrinkNew_completes {news middles olds : List Item} {e : Item}
    (h : Arranged l ⟨news ++ [e], middles, olds⟩) :
    Completes l.shrinkNew fun passed =>
      Arranged passed.1 ⟨news, e :: middles, olds⟩ ∧ SameArena l passed.1 ∧
        passed.2 = ⟨e.1, .new, .middle⟩ := by
  have hlinked : Linked l (Zones.tagged .new news ++ ⟨e.1, e.2, .new⟩ ::
      (Zones.tagged .middle middles ++ Zones.tagged .old olds)) := by
    simpa [Zones.residents] using h.linked
  have hlastNew : l.lastNew = some e.1 := by
    simp [h.lastNew]
  have hsizes : l.sizes = (Zones.sizes ⟨news, middles, olds⟩).enter .new := by
    simp [h.sizes, Zones.sizes, SegmentSizes.enter]
  unfold shrinkNew
  rw [hlastNew]
  refine Completes.bind_eq (entry_eq_ok hlinked.get?_eq) ?_
  have hpass := reassign_completes
    (hlinked.rebound l.sizes (lastSlot (Zones.tagged .new news)) l.firstOld) hsizes .middle
  refine hpass.mono fun passed h' => ?_
  rcases h' with ⟨hlinked', harena, hlastNew', hfirstOld', hsizes', hmove⟩
  refine ⟨⟨hlinked', hlastNew', hfirstOld'.trans h.firstOld, hsizes'⟩, ?_, hmove⟩
  exact ((SameArena.refl l).rebound _ _ _).trans harena

theorem shrinkOld_completes {news middles olds : List Item} {e : Item}
    (h : Arranged l ⟨news, middles, e :: olds⟩) :
    Completes l.shrinkOld fun passed =>
      Arranged passed.1 ⟨news, middles ++ [e], olds⟩ ∧ SameArena l passed.1 ∧
        passed.2 = ⟨e.1, .old, .middle⟩ := by
  have hlinked : Linked l ((Zones.tagged .new news ++ Zones.tagged .middle middles) ++
      ⟨e.1, e.2, .old⟩ :: Zones.tagged .old olds) := by
    simpa [Zones.residents] using h.linked
  have hfirstOld : l.firstOld = some e.1 := h.firstOld
  have hsizes : l.sizes = (Zones.sizes ⟨news, middles, olds⟩).enter .old := by
    simp [h.sizes, Zones.sizes, SegmentSizes.enter]
  unfold shrinkOld
  rw [hfirstOld]
  refine Completes.bind_eq (entry_eq_ok hlinked.get?_eq) ?_
  have hpass := reassign_completes
    (hlinked.rebound l.sizes l.lastNew (firstSlot (Zones.tagged .old olds))) hsizes .middle
  refine hpass.mono fun passed h' => ?_
  rcases h' with ⟨hlinked', harena, hlastNew', hfirstOld', hsizes', hmove⟩
  refine ⟨⟨?_, hlastNew'.trans h.lastNew, hfirstOld', ?_⟩, ?_, hmove⟩
  · simpa [Zones.residents] using hlinked'
  · simp [hsizes', Zones.sizes, SegmentSizes.enter]
  · exact ((SameArena.refl l).rebound _ _ _).trans harena

theorem beforeOld_eq {news middles olds : List Item} {e : Item}
    (h : Arranged l ⟨news, middles ++ [e], olds⟩) : l.beforeOld = .ok (some e.1) := by
  cases olds with
  | nil =>
      have holdest : l.oldest = some e.1 := by
        simp [h.linked.oldest, Zones.residents]
      have hfirstOld : l.firstOld = none := h.firstOld
      simp [beforeOld, hfirstOld, holdest]
  | cons first olds =>
      have hlinked : Linked l ((Zones.tagged .new news ++ (Zones.tagged .middle middles ++
          [⟨e.1, e.2, .middle⟩])) ++ ⟨first.1, first.2, .old⟩ :: Zones.tagged .old olds) := by
        simpa [Zones.residents] using h.linked
      have hfirstOld : l.firstOld = some first.1 := h.firstOld
      have hentry := entry_eq_ok hlinked.get?_eq
      unfold beforeOld
      rw [hfirstOld]
      change Entry.newer <$> l.entry first.1 = _
      rw [hentry]
      refine congrArg Except.ok ?_
      simp [Resident.entry]

theorem growOld_completes {news middles olds : List Item} {e : Item}
    (h : Arranged l ⟨news, middles ++ [e], olds⟩) :
    Completes l.growOld fun passed =>
      Arranged passed.1 ⟨news, middles, e :: olds⟩ ∧ SameArena l passed.1 ∧
        passed.2 = ⟨e.1, .middle, .old⟩ := by
  have hlinked : Linked l ((Zones.tagged .new news ++ Zones.tagged .middle middles) ++
      ⟨e.1, e.2, .middle⟩ :: Zones.tagged .old olds) := by
    simpa [Zones.residents] using h.linked
  have hsizes : l.sizes = (Zones.sizes ⟨news, middles, olds⟩).enter .middle := by
    simp [h.sizes, Zones.sizes, SegmentSizes.enter]
  refine Completes.bind_eq (beforeOld_eq h) ?_
  refine Completes.bind_eq (entry_eq_ok hlinked.get?_eq) ?_
  have hpass := reassign_completes
    (hlinked.rebound l.sizes l.lastNew (some e.1)) hsizes .old
  refine hpass.mono fun passed h' => ?_
  rcases h' with ⟨hlinked', harena, hlastNew', hfirstOld', hsizes', hmove⟩
  refine ⟨⟨?_, hlastNew'.trans h.lastNew, hfirstOld', ?_⟩, ?_, hmove⟩
  · simpa [Zones.residents] using hlinked'
  · simp [hsizes', Zones.sizes, SegmentSizes.enter]
  · exact ((SameArena.refl l).rebound _ _ _).trans harena

/-!
# Passing as many blocks as the bounds ask for
-/

theorem repeatMove_completes (step : RecencyList -> Except Corruption (RecencyList × Move))
    (zones : List Item -> List Item -> Zones) (move : Item -> Move)
    (hstep : forall l done e rest, Arranged l (zones done (e :: rest)) ->
      Completes (step l) fun passed =>
        Arranged passed.1 (zones (done ++ [e]) rest) ∧ SameArena l passed.1 ∧
          passed.2 = move e)
    (done rest : List Item) (h : Arranged l (zones done rest)) :
    Completes (repeatMove step rest.length l) fun passed =>
      Arranged passed.1 (zones (done ++ rest) []) ∧ SameArena l passed.1 ∧
        passed.2 = rest.map move := by
  induction rest generalizing l done with
  | nil =>
      apply Completes.ok
      refine ⟨?_, SameArena.refl l, rfl⟩
      rw [List.append_nil]
      exact h
  | cons e rest ih =>
      refine (hstep l done e rest h).bind fun first hfirst => ?_
      rcases hfirst with ⟨harranged, harena, hmove⟩
      refine (ih (done ++ [e]) harranged).bind fun others hothers => ?_
      rcases hothers with ⟨harranged', harena', hmoves⟩
      apply Completes.pure
      refine ⟨?_, harena.trans harena', ?_⟩
      · rw [List.append_assoc] at harranged'
        exact harranged'
      · rw [hmove, hmoves, List.map_cons]

theorem repeat_shrinkNew {news surplus middles olds : List Item}
    (h : Arranged l ⟨news ++ surplus, middles, olds⟩) :
    Completes (repeatMove shrinkNew surplus.length l) fun passed =>
      Arranged passed.1 ⟨news, surplus ++ middles, olds⟩ ∧ SameArena l passed.1 ∧
        passed.2 = surplus.reverse.map fun e => ⟨e.1, .new, .middle⟩ := by
  have hpass := repeatMove_completes (l := l) shrinkNew
    (fun done rest => ⟨news ++ rest.reverse, done.reverse ++ middles, olds⟩)
    (fun e => ⟨e.1, .new, .middle⟩)
    (by
      intro l done e rest harranged
      have hlast : Arranged l ⟨(news ++ rest.reverse) ++ [e], done.reverse ++ middles, olds⟩ := by
        simpa using harranged
      simpa using shrinkNew_completes hlast)
    [] surplus.reverse (by simpa using h)
  simpa using hpass

theorem repeat_shrinkOld {news middles surplus olds : List Item}
    (h : Arranged l ⟨news, middles, surplus ++ olds⟩) :
    Completes (repeatMove shrinkOld surplus.length l) fun passed =>
      Arranged passed.1 ⟨news, middles ++ surplus, olds⟩ ∧ SameArena l passed.1 ∧
        passed.2 = surplus.map fun e => ⟨e.1, .old, .middle⟩ := by
  have hpass := repeatMove_completes (l := l) shrinkOld
    (fun done rest => ⟨news, middles ++ done, rest ++ olds⟩)
    (fun e => ⟨e.1, .old, .middle⟩)
    (by
      intro l done e rest harranged
      simpa using shrinkOld_completes harranged)
    [] surplus (by simpa using h)
  simpa using hpass

theorem repeat_growOld {news middles passing olds : List Item}
    (h : Arranged l ⟨news, middles ++ passing, olds⟩) :
    Completes (repeatMove growOld passing.length l) fun passed =>
      Arranged passed.1 ⟨news, middles, passing ++ olds⟩ ∧ SameArena l passed.1 ∧
        passed.2 = passing.reverse.map fun e => ⟨e.1, .middle, .old⟩ := by
  have hpass := repeatMove_completes (l := l) growOld
    (fun done rest => ⟨news, middles ++ rest.reverse, done.reverse ++ olds⟩)
    (fun e => ⟨e.1, .middle, .old⟩)
    (by
      intro l done e rest harranged
      have hlast : Arranged l ⟨news, (middles ++ rest.reverse) ++ [e], done.reverse ++ olds⟩ := by
        simpa using harranged
      simpa using growOld_completes hlast)
    [] passing.reverse (by simpa using h)
  simpa using hpass

theorem trimNew_completes (h : Arranged l z) :
    Completes (repeatMove shrinkNew l.newExcess l) fun passed =>
      Arranged passed.1 (z.trimNew l.maxNew) ∧ SameArena l passed.1 ∧
        passed.2 = (z.news.drop l.maxNew).reverse.map fun e => ⟨e.1, .new, .middle⟩ := by
  have hexcess : l.newExcess = (z.news.drop l.maxNew).length := by
    simp [newExcess, h.sizes, Zones.sizes]
  rw [hexcess]
  apply repeat_shrinkNew
  rw [List.take_append_drop]
  exact h

theorem trimOld_completes (h : Arranged l z) :
    Completes (repeatMove shrinkOld l.oldExcess l) fun passed =>
      Arranged passed.1 (z.trimOld l.maxOld) ∧ SameArena l passed.1 ∧
        passed.2 = (z.olds.take (z.oldSurplus l.maxOld)).map fun e => ⟨e.1, .old, .middle⟩ := by
  have hexcess : l.oldExcess = (z.olds.take (z.oldSurplus l.maxOld)).length := by
    simp [oldExcess, Zones.oldSurplus, h.sizes, Zones.sizes]
  rw [hexcess]
  apply repeat_shrinkOld
  rw [List.take_append_drop]
  exact h

theorem fillOld_completes (h : Arranged l z) :
    Completes (repeatMove growOld l.oldRoom l) fun passed =>
      Arranged passed.1 (z.fillOld l.maxOld) ∧ SameArena l passed.1 ∧
        passed.2 = (z.middles.drop (z.middleRest l.maxOld)).reverse.map
          fun e => ⟨e.1, .middle, .old⟩ := by
  have hroom : l.oldRoom = (z.middles.drop (z.middleRest l.maxOld)).length := by
    simp only [oldRoom, h.sizes, Zones.sizes, List.length_drop, Zones.middleRest]
    omega
  rw [hroom]
  apply repeat_growOld
  rw [List.take_append_drop]
  exact h

/-- Rebalancing cuts the sequence anew, wherever the boundaries were. -/
theorem rebalance_completes (h : Arranged l z) :
    Completes l.rebalance fun balanced =>
      Arranged balanced.1 (z.settled l.maxNew l.maxOld) ∧ SameArena l balanced.1 ∧
        balanced.2 = z.moves l.maxNew l.maxOld := by
  refine (trimNew_completes h).bind ?_
  rintro ⟨l₁, fromNew⟩ ⟨h₁, harena₁, hfromNew⟩
  refine (trimOld_completes h₁).bind ?_
  rintro ⟨l₂, fromOld⟩ ⟨h₂, harena₂, hfromOld⟩
  refine (fillOld_completes h₂).bind ?_
  rintro ⟨l₃, toOld⟩ ⟨h₃, harena₃, htoOld⟩
  have hmaxOld₁ : l₁.maxOld = l.maxOld := harena₁.maxOld
  have hmaxOld₂ : l₂.maxOld = l.maxOld := harena₂.maxOld.trans hmaxOld₁
  simp only [hmaxOld₁, hmaxOld₂] at h₃ hfromNew hfromOld htoOld
  apply Completes.pure
  refine ⟨h₃, (harena₁.trans harena₂).trans harena₃, ?_⟩
  simp only [Zones.moves, hfromNew, hfromOld, htoOld]

end RecencyList
end BlockCache

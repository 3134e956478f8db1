import BlockCache.Proofs.Completion
import BlockCache.RecencyList.Operations
import Mathlib.Data.List.Nodup

/-!
# The thread through the slots

The entries of a recency list are threaded both ways. This module says when the thread
follows a given sequence of resident blocks, and what taking a block out of the thread
and putting one into it does to that sequence.

The thread is cut in two at the place that an operation works on: the front part ends in
a link to what comes next, the back part begins with a link to what came before. Setting
one link changes what one part ends in and leaves the other part alone.
-/

namespace BlockCache

structure Resident where
  slot : Slot
  block : Block
  segment : Segment
deriving DecidableEq, Repr

def Resident.entry (r : Resident) (newer older : Option Slot) : Entry :=
  { block := r.block, segment := r.segment, newer := newer, older := older }

namespace RecencyList

variable {l l' : RecencyList} {slot : Slot} {e : Entry}

def write (l : RecencyList) (slot : Slot) (entry : Entry) : RecencyList :=
  { l with cells := l.cells.setIfInBounds slot (some entry) }

theorem lt_size_of_get? (h : l.get? slot = some e) : slot < l.cells.size := by
  unfold get? at h
  cases hcell : l.cells[slot]? with
  | none =>
      rw [hcell] at h
      cases h
  | some cell =>
      exact (Array.getElem?_eq_some_iff.mp hcell).1

theorem get?_write (h : l.get? slot = some e) (entry : Entry) (other : Slot) :
    (l.write slot entry).get? other = if other = slot then some entry else l.get? other := by
  have hlt := lt_size_of_get? h
  simp only [write, get?, Array.getElem?_setIfInBounds]
  by_cases hother : other = slot
  · simp [hother, hlt]
  · simp [hother, Ne.symm hother]

theorem modify_eq_ok (h : l.get? slot = some e) (f : Entry -> Entry) :
    l.modify slot f = .ok (l.write slot (f e)) := by
  simp [modify, h, write]

theorem entry_eq_ok (h : l.get? slot = some e) : l.entry slot = .ok e := by
  simp [entry, h]

/-!
# What links leave alone
-/

/-- `l'` has the slots and the bounds of `l`, and blocks in the same slots. -/
structure SameArena (l l' : RecencyList) : Prop where
  free : l'.free = l.free
  size : l'.cells.size = l.cells.size
  occupied : forall slot, (l'.get? slot).isSome = (l.get? slot).isSome
  maxNew : l'.maxNew = l.maxNew
  maxOld : l'.maxOld = l.maxOld

structure Relinked (l l' : RecencyList) : Prop extends SameArena l l' where
  lastNew : l'.lastNew = l.lastNew
  firstOld : l'.firstOld = l.firstOld
  sizes : l'.sizes = l.sizes

theorem SameArena.trans {l₁ l₂ l₃ : RecencyList} (h : SameArena l₁ l₂) (h' : SameArena l₂ l₃) :
    SameArena l₁ l₃ where
  free := h'.free.trans h.free
  size := h'.size.trans h.size
  occupied slot := (h'.occupied slot).trans (h.occupied slot)
  maxNew := h'.maxNew.trans h.maxNew
  maxOld := h'.maxOld.trans h.maxOld

theorem Relinked.trans {l₁ l₂ l₃ : RecencyList} (h : Relinked l₁ l₂) (h' : Relinked l₂ l₃) :
    Relinked l₁ l₃ where
  toSameArena := h.toSameArena.trans h'.toSameArena
  lastNew := h'.lastNew.trans h.lastNew
  firstOld := h'.firstOld.trans h.firstOld
  sizes := h'.sizes.trans h.sizes

theorem relinked_write (h : l.get? slot = some e) (entry : Entry) :
    Relinked l (l.write slot entry) where
  free := rfl
  size := by simp [write]
  occupied other := by
    rw [get?_write h]
    by_cases hother : other = slot
    · simp [hother, h]
    · simp [hother]
  maxNew := rfl
  maxOld := rfl
  lastNew := rfl
  firstOld := rfl
  sizes := rfl

/-!
# Sequences of residents
-/

def slotsOf (rs : List Resident) : List Slot :=
  rs.map Resident.slot

def firstSlot (rs : List Resident) : Option Slot :=
  rs.head?.map Resident.slot

def lastSlot (rs : List Resident) : Option Slot :=
  rs.getLast?.map Resident.slot

@[simp] theorem slotsOf_nil : slotsOf [] = [] := rfl

@[simp] theorem slotsOf_cons (r : Resident) (rs : List Resident) :
    slotsOf (r :: rs) = r.slot :: slotsOf rs := rfl

@[simp] theorem slotsOf_append (as bs : List Resident) :
    slotsOf (as ++ bs) = slotsOf as ++ slotsOf bs :=
  List.map_append

@[simp] theorem firstSlot_nil : firstSlot [] = none := rfl

@[simp] theorem firstSlot_cons (r : Resident) (rs : List Resident) :
    firstSlot (r :: rs) = some r.slot := rfl

@[simp] theorem firstSlot_append (as bs : List Resident) :
    firstSlot (as ++ bs) = (firstSlot as).or (firstSlot bs) := by
  cases as <;> simp [firstSlot]

@[simp] theorem lastSlot_nil : lastSlot [] = none := rfl

@[simp] theorem lastSlot_append (as bs : List Resident) :
    lastSlot (as ++ bs) = (lastSlot bs).or (lastSlot as) := by
  cases hlast : bs.getLast? <;> simp [lastSlot, hlast]

@[simp] theorem lastSlot_cons (r : Resident) (rs : List Resident) :
    lastSlot (r :: rs) = (lastSlot rs).or (some r.slot) :=
  lastSlot_append [r] rs

theorem mem_slotsOf_of_lastSlot {rs : List Resident} (h : lastSlot rs = some slot) :
    slot ∈ slotsOf rs := by
  rcases Option.map_eq_some_iff.mp h with ⟨r, hr, rfl⟩
  exact List.mem_map_of_mem (List.mem_of_getLast? hr)

theorem mem_slotsOf_of_firstSlot {rs : List Resident} (h : firstSlot rs = some slot) :
    slot ∈ slotsOf rs := by
  rcases Option.map_eq_some_iff.mp h with ⟨r, hr, rfl⟩
  exact List.mem_map_of_mem (List.mem_of_head? hr)

/-!
# Threads

`Chained` follows a sequence of residents from one neighbour to another, as far as the
entries of these residents go. The front part of a list also fixes its newest block, and
the back part its oldest.
-/

/-- The entries of `rs` are threaded in this order, between `newer` and `older`. -/
def Chained (get : Slot -> Option Entry) : Option Slot -> List Resident -> Option Slot -> Prop
  | _, [], _ => True
  | newer, r :: rs, older =>
      get r.slot = some (r.entry newer ((firstSlot rs).or older)) ∧
        Chained get (some r.slot) rs older

structure Front (l : RecencyList) (rs : List Resident) (next : Option Slot) : Prop where
  chained : Chained l.get? none rs next
  newest : l.newest = (firstSlot rs).or next

structure Back (l : RecencyList) (previous : Option Slot) (rs : List Resident) : Prop where
  chained : Chained l.get? previous rs none
  oldest : l.oldest = (lastSlot rs).or previous

/-- The thread of `l` is the sequence `rs`, and no slot occurs twice in it. -/
structure Linked (l : RecencyList) (rs : List Resident) : Prop where
  chained : Chained l.get? none rs none
  newest : l.newest = firstSlot rs
  oldest : l.oldest = lastSlot rs
  nodup : (slotsOf rs).Nodup

theorem chained_append {get : Slot -> Option Entry} {newer older : Option Slot}
    {as bs : List Resident} :
    Chained get newer (as ++ bs) older <->
      Chained get newer as ((firstSlot bs).or older) ∧
        Chained get ((lastSlot as).or newer) bs older := by
  induction as generalizing newer with
  | nil => simp [Chained]
  | cons r rs ih =>
      simp only [List.cons_append, Chained, ih, firstSlot_append, lastSlot_cons, Option.or_assoc,
        Option.or_some, and_assoc]
      simp

theorem chained_congr {get get' : Slot -> Option Entry} {newer older : Option Slot}
    {rs : List Resident} (hget : forall slot, slot ∈ slotsOf rs -> get' slot = get slot)
    (h : Chained get newer rs older) : Chained get' newer rs older := by
  induction rs generalizing newer with
  | nil => trivial
  | cons r rs ih =>
      constructor
      · rw [hget r.slot (by simp)]
        exact h.1
      · apply ih
        · intro slot hslot
          exact hget slot (by simp [hslot])
        · exact h.2

theorem linked_append_iff {as bs : List Resident} :
    Linked l (as ++ bs) <->
      Front l as (firstSlot bs) ∧ Back l (lastSlot as) bs ∧ (slotsOf (as ++ bs)).Nodup := by
  constructor
  · intro h
    have hchained := chained_append.mp h.chained
    simp only [Option.or_none] at hchained
    refine ⟨⟨hchained.1, ?_⟩, ⟨hchained.2, ?_⟩, h.nodup⟩
    · rw [h.newest, firstSlot_append]
    · rw [h.oldest, lastSlot_append]
  · rintro ⟨hfront, hback, hnodup⟩
    refine ⟨chained_append.mpr ?_, ?_, ?_, hnodup⟩
    · simpa only [Option.or_none] using And.intro hfront.chained hback.chained
    · rw [hfront.newest, firstSlot_append]
    · rw [hback.oldest, lastSlot_append]

theorem Linked.get?_eq {as bs : List Resident} {r : Resident} (h : Linked l (as ++ r :: bs)) :
    l.get? r.slot = some (r.entry (lastSlot as) (firstSlot bs)) := by
  have hchained := (chained_append.mp h.chained).2.1
  simpa using hchained

theorem Front.of_get?_eq {as : List Resident} {next : Option Slot} (h : Front l as next)
    (hget : forall slot, slot ∈ slotsOf as -> l'.get? slot = l.get? slot)
    (hnewest : l'.newest = l.newest) : Front l' as next where
  chained := chained_congr hget h.chained
  newest := hnewest.trans h.newest

theorem Back.of_get?_eq {bs : List Resident} {previous : Option Slot} (h : Back l previous bs)
    (hget : forall slot, slot ∈ slotsOf bs -> l'.get? slot = l.get? slot)
    (holdest : l'.oldest = l.oldest) : Back l' previous bs where
  chained := chained_congr hget h.chained
  oldest := holdest.trans h.oldest

/-!
# Setting one link
-/

theorem setOlder_completes {as : List Resident} {next : Option Slot} (h : Front l as next)
    (hnodup : (slotsOf as).Nodup) (link : Option Slot) :
    Completes (l.setOlder (lastSlot as) link) fun l' =>
      Front l' as link ∧ Relinked l l' ∧ l'.oldest = l.oldest ∧
        forall slot, slot ∉ slotsOf as -> l'.get? slot = l.get? slot := by
  rcases List.eq_nil_or_concat as with rfl | ⟨init, r, rfl⟩
  · apply Completes.ok
    exact ⟨⟨trivial, rfl⟩, ⟨⟨rfl, rfl, fun _ => rfl, rfl, rfl⟩, rfl, rfl, rfl⟩, rfl,
      fun _ _ => rfl⟩
  · rw [List.concat_eq_append] at h hnodup ⊢
    have hchained := chained_append.mp h.chained
    have hget : l.get? r.slot = some (r.entry (lastSlot init) next) := by
      simpa using hchained.2.1
    have hfresh : r.slot ∉ slotsOf init := by
      intro hmem
      have hdisjoint := (List.nodup_append.mp (slotsOf_append init [r] ▸ hnodup)).2.2
      exact hdisjoint r.slot hmem r.slot (by simp) rfl
    have hset : l.setOlder (lastSlot (init ++ [r])) link =
        .ok (l.write r.slot (r.entry (lastSlot init) link)) := by
      rw [lastSlot_append]
      exact modify_eq_ok hget _
    rw [hset]
    apply Completes.ok
    refine ⟨⟨chained_append.mpr ⟨?_, ?_, trivial⟩, ?_⟩, relinked_write hget _, rfl, ?_⟩
    · refine chained_congr ?_ hchained.1
      intro slot hslot
      rw [get?_write hget, if_neg]
      intro heq
      exact hfresh (heq ▸ hslot)
    · simp [get?_write hget]
    · have hnewest := h.newest
      simp only [firstSlot_append, firstSlot_cons, Option.or_assoc, Option.some_or] at hnewest ⊢
      exact hnewest
    · intro slot hslot
      rw [get?_write hget, if_neg]
      intro heq
      exact hslot (by simp [heq])

theorem setNewer_completes {bs : List Resident} {previous : Option Slot}
    (h : Back l previous bs) (hnodup : (slotsOf bs).Nodup) (link : Option Slot) :
    Completes (l.setNewer (firstSlot bs) link) fun l' =>
      Back l' link bs ∧ Relinked l l' ∧ l'.newest = l.newest ∧
        forall slot, slot ∉ slotsOf bs -> l'.get? slot = l.get? slot := by
  cases bs with
  | nil =>
      apply Completes.ok
      exact ⟨⟨trivial, rfl⟩, ⟨⟨rfl, rfl, fun _ => rfl, rfl, rfl⟩, rfl, rfl, rfl⟩, rfl,
        fun _ _ => rfl⟩
  | cons r rest =>
      have hget := h.chained.1
      have hfresh : r.slot ∉ slotsOf rest := (List.nodup_cons.mp hnodup).1
      have hset : l.setNewer (firstSlot (r :: rest)) link =
          .ok (l.write r.slot (r.entry link ((firstSlot rest).or none))) :=
        modify_eq_ok hget _
      rw [hset]
      apply Completes.ok
      refine ⟨⟨⟨?_, ?_⟩, ?_⟩, relinked_write hget _, rfl, ?_⟩
      · simp [get?_write hget]
      · refine chained_congr ?_ h.chained.2
        intro slot hslot
        rw [get?_write hget, if_neg]
        intro heq
        exact hfresh (heq ▸ hslot)
      · have holdest := h.oldest
        simp only [lastSlot_cons, Option.or_assoc, Option.some_or] at holdest ⊢
        exact holdest
      · intro slot hslot
        rw [get?_write hget, if_neg]
        intro heq
        exact hslot (by simp [heq])

theorem relink_completes {as bs : List Resident} {next previous : Option Slot}
    (hfront : Front l as next) (hback : Back l previous bs)
    (hnodup : (slotsOf (as ++ bs)).Nodup) (next' previous' : Option Slot) :
    Completes (l.setOlder (lastSlot as) next') fun l₁ =>
      Completes (l₁.setNewer (firstSlot bs) previous') fun l' =>
        Front l' as next' ∧ Back l' previous' bs ∧ Relinked l l' ∧
          forall slot, slot ∉ slotsOf (as ++ bs) -> l'.get? slot = l.get? slot := by
  rw [slotsOf_append] at hnodup
  rcases List.nodup_append.mp hnodup with ⟨hnodupAs, hnodupBs, hdisjoint⟩
  refine (setOlder_completes hfront hnodupAs next').mono fun l₁ h₁ => ?_
  rcases h₁ with ⟨hfront₁, hrelinked₁, holdest₁, hget₁⟩
  have hback₁ : Back l₁ previous bs := by
    refine hback.of_get?_eq (fun slot hslot => hget₁ slot ?_) holdest₁
    intro hmem
    exact hdisjoint slot hmem slot hslot rfl
  refine (setNewer_completes hback₁ hnodupBs previous').mono fun l' h' => ?_
  rcases h' with ⟨hback', hrelinked', hnewest', hget'⟩
  have hfront' : Front l' as next' := by
    refine hfront₁.of_get?_eq (fun slot hslot => hget' slot ?_) hnewest'
    intro hmem
    exact hdisjoint slot hslot slot hmem rfl
  refine ⟨hfront', hback', hrelinked₁.trans hrelinked', ?_⟩
  intro slot hslot
  rw [slotsOf_append, List.mem_append, not_or] at hslot
  rw [hget' slot hslot.2, hget₁ slot hslot.1]

/-!
# Whole changes of the thread
-/

theorem nodup_slots_middle_iff {as bs : List Resident} {r : Resident} :
    (slotsOf (as ++ r :: bs)).Nodup <->
      r.slot ∉ slotsOf (as ++ bs) ∧ (slotsOf (as ++ bs)).Nodup := by
  rw [slotsOf_append, slotsOf_append, slotsOf_cons, List.nodup_middle, List.nodup_cons]

theorem get?_write_of_mem {slots : List Slot} (h : l.get? slot = some e)
    (hfresh : slot ∉ slots) (entry : Entry) {other : Slot} (hother : other ∈ slots) :
    (l.write slot entry).get? other = l.get? other := by
  rw [get?_write h, if_neg]
  intro heq
  exact hfresh (heq ▸ hother)

theorem modify_completes {as bs : List Resident} {r : Resident} (h : Linked l (as ++ r :: bs))
    {f : Entry -> Entry} {block : Block} {segment : Segment}
    (hf : forall newer older, f (r.entry newer older) = ⟨block, segment, newer, older⟩) :
    Completes (l.modify r.slot f) fun l' =>
      Linked l' (as ++ ⟨r.slot, block, segment⟩ :: bs) ∧ Relinked l l' := by
  have hget := h.get?_eq
  have hfresh := (nodup_slots_middle_iff.mp h.nodup).1
  rw [modify_eq_ok hget, hf]
  apply Completes.ok
  refine ⟨?_, relinked_write hget _⟩
  rcases linked_append_iff.mp h with ⟨hfront, hback, hnodup⟩
  refine linked_append_iff.mpr ⟨?_, ⟨⟨?_, ?_⟩, ?_⟩, ?_⟩
  · refine hfront.of_get?_eq (fun slot hslot => ?_) rfl
    exact get?_write_of_mem hget hfresh _ (by simp [hslot])
  · simp [get?_write hget, Resident.entry]
  · refine chained_congr (fun slot hslot => ?_) hback.chained.2
    exact get?_write_of_mem hget hfresh _ (by simp [hslot])
  · have holdest := hback.oldest
    rw [lastSlot_cons] at holdest ⊢
    exact holdest
  · simpa using hnodup

theorem detach_completes {as bs : List Resident} {r : Resident} {sizes : SegmentSizes}
    (h : Linked l (as ++ r :: bs)) (hsizes : l.sizes.leave? r.segment = some sizes) :
    Completes (l.detach r.slot) fun l' =>
      Linked l' (as ++ bs) ∧ SameArena l l' ∧
        l'.get? r.slot = some (r.entry none none) ∧ l'.sizes = sizes ∧
        l'.lastNew = (if l.lastNew = some r.slot then lastSlot as else l.lastNew) ∧
        l'.firstOld = (if l.firstOld = some r.slot then firstSlot bs else l.firstOld) := by
  have hget := h.get?_eq
  rcases linked_append_iff.mp h with ⟨hfront, hback, hnodup⟩
  rcases nodup_slots_middle_iff.mp hnodup with ⟨hfresh, hnodup'⟩
  have hbackBs : Back l (some r.slot) bs :=
    ⟨hback.chained.2, by simpa using hback.oldest⟩
  refine Completes.bind_eq (entry_eq_ok hget) ?_
  refine (relink_completes hfront hbackBs hnodup' (firstSlot bs) (lastSlot as)).bind
    fun l₁ h₁ => h₁.bind fun l₂ h₂ => ?_
  rcases h₂ with ⟨hfront₂, hback₂, hrelinked, hget₂⟩
  have hgetSlot : l₂.get? r.slot = some (r.entry (lastSlot as) (firstSlot bs)) := by
    rw [hget₂ r.slot hfresh, hget]
  have hleave : l₂.leave r.segment = .ok sizes := by
    simp [leave, hrelinked.sizes, hsizes]
  refine Completes.bind_eq hleave ?_
  refine Completes.bind_eq (modify_eq_ok hgetSlot _) ?_
  apply Completes.pure
  have hwrite := relinked_write hgetSlot (r.entry none none)
  have hfront₃ : Front (l₂.write r.slot (r.entry none none)) as (firstSlot bs) := by
    refine hfront₂.of_get?_eq (fun slot hslot => ?_) rfl
    exact get?_write_of_mem hgetSlot hfresh _ (by simp [hslot])
  have hback₃ : Back (l₂.write r.slot (r.entry none none)) (lastSlot as) bs := by
    refine hback₂.of_get?_eq (fun slot hslot => ?_) rfl
    exact get?_write_of_mem hgetSlot hfresh _ (by simp [hslot])
  have hlinked := linked_append_iff.mpr ⟨hfront₃, hback₃, hnodup'⟩
  have harena := (hrelinked.trans hwrite).toSameArena
  refine ⟨⟨hlinked.chained, hlinked.newest, hlinked.oldest, hlinked.nodup⟩,
    ⟨harena.free, harena.size, harena.occupied, harena.maxNew, harena.maxOld⟩, ?_, rfl, ?_, ?_⟩
  · have hself := get?_write hgetSlot (r.entry none none) r.slot
    rw [if_pos rfl] at hself
    exact hself
  · rw [<- hrelinked.lastNew]
    rfl
  · rw [<- hrelinked.firstOld]
    rfl

theorem Linked.behind_eq {as bs : List Resident} (h : Linked l (as ++ bs)) :
    l.behind (lastSlot as) = .ok (firstSlot bs) := by
  rcases List.eq_nil_or_concat as with rfl | ⟨init, r, rfl⟩
  · exact congrArg Except.ok h.newest
  · rw [List.concat_eq_append] at h ⊢
    have hget : l.get? r.slot = some (r.entry (lastSlot init) (firstSlot bs)) := by
      apply Linked.get?_eq
      simpa using h
    rw [lastSlot_append]
    change Entry.older <$> l.entry r.slot = _
    rw [entry_eq_ok hget]
    rfl

theorem insertBehind_completes {as bs : List Resident} {r : Resident}
    {newer older : Option Slot} (h : Linked l (as ++ bs)) (hfresh : r.slot ∉ slotsOf (as ++ bs))
    (hget : l.get? r.slot = some (r.entry newer older)) :
    Completes (l.insertBehind r.slot (lastSlot as)) fun l' =>
      Linked l' (as ++ r :: bs) ∧ Relinked l l' := by
  rcases linked_append_iff.mp h with ⟨hfront, hback, hnodup⟩
  refine Completes.bind_eq h.behind_eq ?_
  refine Completes.bind_eq (modify_eq_ok hget _) ?_
  have hself : (l.write r.slot (r.entry (lastSlot as) (firstSlot bs))).get? r.slot =
      some (r.entry (lastSlot as) (firstSlot bs)) := by
    rw [get?_write hget, if_pos rfl]
  have hfront₁ : Front (l.write r.slot (r.entry (lastSlot as) (firstSlot bs))) as
      (firstSlot bs) := by
    refine hfront.of_get?_eq (fun slot hslot => ?_) rfl
    exact get?_write_of_mem hget hfresh _ (by simp [hslot])
  have hback₁ : Back (l.write r.slot (r.entry (lastSlot as) (firstSlot bs))) (lastSlot as)
      bs := by
    refine hback.of_get?_eq (fun slot hslot => ?_) rfl
    exact get?_write_of_mem hget hfresh _ (by simp [hslot])
  refine (relink_completes hfront₁ hback₁ hnodup (some r.slot) (some r.slot)).bind
    fun l₂ h₂ => h₂.mono fun l₃ h₃ => ?_
  rcases h₃ with ⟨hfront₃, hback₃, hrelinked, hget₃⟩
  refine ⟨linked_append_iff.mpr ⟨hfront₃, ⟨⟨?_, hback₃.chained⟩, ?_⟩,
    nodup_slots_middle_iff.mpr ⟨hfresh, hnodup⟩⟩, (relinked_write hget _).trans hrelinked⟩
  · rw [hget₃ r.slot hfresh, hself, Option.or_none]
  · rw [hback₃.oldest, lastSlot_cons, Option.or_assoc, Option.some_or]

end RecencyList
end BlockCache

import BlockCache.Proofs.Cache.Counters

/-!
# Recency

A recency list is not sorted by last access: a block that leaves New comes to stand before
blocks of Middle that were accessed after it. This is the only way in which the list is out of
order. Among blocks with the same counter it does show which was accessed last, and so the
eviction candidate is the least recently accessed of the least referenced blocks in Old.
-/

namespace BlockCache
namespace Cache

variable {σ : Type}

/-- When the block was last hit or admitted, counted in moments; zero if it never was. -/
def lastAccess (log : List (Moment σ)) (key : BlockKey) : Nat :=
  log.length - log.reverse.findIdx fun m => m.serves key

theorem lastAccess_concat (log : List (Moment σ)) (m : Moment σ) (key : BlockKey) :
    lastAccess (log ++ [m]) key =
      if m.serves key then log.length + 1 else lastAccess log key := by
  unfold lastAccess
  rw [List.reverse_append, List.reverse_singleton, List.singleton_append, List.findIdx_cons,
    List.length_append, List.length_singleton]
  cases m.serves key with
  | true => rfl
  | false => exact Nat.add_sub_add_right ..

theorem lastAccess_lt (log : List (Moment σ)) (key : BlockKey) :
    lastAccess log key < log.length + 1 :=
  Nat.lt_succ_of_le (Nat.sub_le _ _)

/--
The places of two blocks, the first of them nearer to the front, show which was accessed last.
They do not if only the block behind has references: it may have got them behind New.
-/
def Comparable (maxNew : Nat) (block behind : Block) : Prop :=
  maxNew = 0 ∨ block.counter ≠ 0 ∨ behind.counter = 0

theorem comparable_of_counter_eq {maxNew : Nat} {block behind : Block}
    (h : block.counter = behind.counter) : Comparable maxNew block behind := by
  by_cases hzero : behind.counter = 0
  · exact .inr (.inr hzero)
  · exact .inr (.inl (h ▸ hzero))

structure Ranked (maxNew : Nat) (log : List (Moment σ)) (items : List Item) : Prop where
  accessed : forall e, e ∈ items -> 0 < lastAccess log e.2.key
  ordered : items.Pairwise fun e e' =>
    Comparable maxNew e.2 e'.2 -> lastAccess log e'.2.key < lastAccess log e.2.key

variable {maxNew : Nat} {log : List (Moment σ)} {m : Moment σ} {items items' : List Item}

theorem Ranked.nil (maxNew : Nat) (log : List (Moment σ)) : Ranked maxNew log [] :=
  ⟨nofun, List.Pairwise.nil⟩

theorem Ranked.unserved (h : Ranked maxNew log items) (hsub : items'.Sublist items)
    (hserves : forall e, e ∈ items' -> m.serves e.2.key = false) :
    Ranked maxNew (log ++ [m]) items' := by
  have hsame : forall e, e ∈ items' ->
      lastAccess (log ++ [m]) e.2.key = lastAccess log e.2.key := by
    intro e he
    rw [lastAccess_concat, hserves e he]
    rfl
  constructor
  · intro e he
    rw [hsame e he]
    exact h.accessed e (hsub.subset he)
  · refine (h.ordered.sublist hsub).imp_of_mem ?_
    intro e e' he he' hordered
    rw [hsame e he, hsame e' he']
    exact hordered

theorem Ranked.insert (front : List Item) {rest : List Item} {e : Item}
    (h : Ranked maxNew (log ++ [m]) (front ++ rest))
    (hrest : forall e', e' ∈ rest -> m.serves e'.2.key = false)
    (hfront : forall e', e' ∈ front -> ¬ Comparable maxNew e'.2 e.2)
    (hserves : m.serves e.2.key = true) : Ranked maxNew (log ++ [m]) (front ++ e :: rest) := by
  have hnow : lastAccess (log ++ [m]) e.2.key = log.length + 1 := by
    rw [lastAccess_concat, if_pos hserves]
  constructor
  · intro e' he'
    rcases List.mem_cons.mp (List.perm_middle.mem_iff.mp he') with rfl | hold
    · rw [hnow]
      exact Nat.succ_pos _
    · exact h.accessed e' hold
  · rcases List.pairwise_append.mp h.ordered with ⟨hbefore, hbehind, hacross⟩
    refine List.pairwise_append.mpr ⟨hbefore, List.pairwise_cons.mpr ⟨?_, hbehind⟩, ?_⟩
    · intro e' he' _
      rw [hnow, lastAccess_concat, hrest e' he']
      exact lastAccess_lt log e'.2.key
    · intro e' he' e'' he'' hcomparable
      rcases List.mem_cons.mp he'' with rfl | he''
      · exact absurd hcomparable (hfront e' he')
      · exact hacross e' he' e'' he'' hcomparable

variable {config : Config} {c c₁ : Cache σ} {s s' : Contents config}

theorem Coherent.ranked_touch (h : Coherent config c s)
    (hlog : Ranked config.maxNew.toNat log s.items)
    (hnew : forall e, e ∈ s.zones.news -> e.2.counter = 0) {slot : Slot} {block : Block}
    (hmem : (slot, block) ∈ s.items) (hserves : m.serves block.key = true)
    (hothers : forall key, key ≠ block.key -> m.serves key = false) :
    Ranked config.maxNew.toNat (log ++ [m]) (s.touch slot).2.items := by
  have hblock := CutSequence.block?_eq_some_iff.mpr hmem
  have hrest : forall e, e ∈ without slot s.items -> m.serves e.2.key = false := by
    intro e he
    rcases mem_without.mp he with ⟨hitem, hslot⟩
    exact hothers e.2.key (h.key_ne_of_slot_ne hitem hmem hslot)
  have hstayed : Ranked config.maxNew.toNat (log ++ [m]) (without slot s.items) :=
    hlog.unserved List.filter_sublist hrest
  by_cases hfront : slot ∈ s.newSlots
  · rw [CutSequence.touch_of_new hblock hfront]
    exact Ranked.insert [] hstayed hrest nofun hserves
  · rw [CutSequence.touch_of_not_new hblock hfront]
    refine Ranked.insert _ (by rwa [List.take_append_drop]) ?_ ?_ hserves
    · intro e he
      exact hrest e (List.mem_of_mem_drop he)
    · -- The blocks before the cut have no references, and this one has just got one.
      intro e he hcomparable
      rw [CutSequence.take_without hfront] at he
      rcases hcomparable with hnone | hcounter | hzero
      · have hpos := List.length_pos_of_mem he
        have hcut := s.cut_le_maxNew
        rw [s.length_news_zones] at hpos
        omega
      · exact hcounter (hnew e he)
      · exact block.counter_credit_ne_zero hzero

structure Stamped (log : List (Moment σ)) (items : List Item) : Prop where
  accessed : forall e, e ∈ items -> 0 < lastAccess log e.2.key
  ordered : items.Pairwise fun e e' =>
    e.2.counter = e'.2.counter -> lastAccess log e'.2.key < lastAccess log e.2.key

theorem Ranked.stamped (h : Ranked maxNew log items) : Stamped log items :=
  ⟨h.accessed, h.ordered.imp fun hordered hcounter =>
    hordered (comparable_of_counter_eq hcounter)⟩

/-- The order in which blocks of Old are evicted: fewer references first, then longer ago. -/
def EvictedBefore (log : List (Moment σ)) (block other : Block) : Prop :=
  block.counter < other.counter ∨
    block.counter = other.counter ∧ lastAccess log block.key < lastAccess log other.key

theorem Stamped.evictedBefore (hlog : Stamped log s.items) {slot : Slot} {block : Block}
    (hcandidate : s.zones.Candidate (some slot)) (hmem : (slot, block) ∈ s.items)
    (hold : s.zones.olds ≠ []) :
    (slot, block) ∈ s.zones.olds ∧ forall e, e ∈ s.zones.olds -> e.2 ≠ block ->
      EvictedBefore log block e.2 := by
  cases hcandidate with
  | last hnil hlast => exact absurd hnil hold
  | old hsplit hnewer holder =>
      rename_i block' newer older
      have hsub : s.zones.olds.Sublist s.items := by
        rw [<- s.items_zones]
        exact (List.sublist_append_right _ _).trans (List.sublist_append_right _ _)
      rw [hsplit] at hsub
      rw [hsplit]
      have hcandidate : (slot, block') ∈ newer ++ (slot, block') :: older :=
        List.mem_append_right _ List.mem_cons_self
      cases List.inj_on_of_nodup_map s.nodup (hsub.subset hcandidate) hmem rfl
      refine ⟨hcandidate, ?_⟩
      intro e he hne
      rcases List.mem_append.mp he with hbefore | hbehind
      · -- In front of the candidate the counters may be the same, and then the order tells.
        rcases UInt64.lt_or_eq_of_le (hnewer e hbefore) with hlt | heq
        · exact .inl hlt
        · have hordered := (List.pairwise_append.mp (hlog.ordered.sublist hsub)).2.2
          exact .inr ⟨heq, hordered e hbefore _ List.mem_cons_self heq.symm⟩
      · rcases List.mem_cons.mp hbehind with rfl | hbehind
        · exact absurd rfl hne
        · exact .inl (holder e hbehind)

variable [BlockSource σ]

theorem Passes.ranked (h : Coherent config m.before s) (h' : Coherent config m.after s')
    (hpasses : Passes m s s') (hnew : forall e, e ∈ s.zones.news -> e.2.counter = 0)
    (hlog : Ranked config.maxNew.toNat log s.items) :
    Ranked config.maxNew.toNat (log ++ [m]) s'.items := by
  cases hpasses with
  | accessed haccessed =>
      rename_i c key step
      have hothers : forall key', key' ≠ key ->
          (⟨.access key, c, step.cache⟩ : Moment σ).serves key' = false := by
        intro key' hne
        exact Moment.serves_eq_false_of_deed fun hdeed => hne (Deed.access.inj hdeed).symm
      have hmissed : Absent s key -> forall e, e ∈ s.items ->
          (⟨.access key, c, step.cache⟩ : Moment σ).serves e.2.key = false :=
        fun habsent e he => hothers e.2.key (habsent.key_ne he)
      cases haccessed with
      | hit hmem hkey =>
          cases hkey
          exact h.ranked_touch hlog hnew hmem (h.serves_of_mem hmem) hothers
      | failed habsent | oversized habsent | pastEnd habsent =>
          exact hlog.unserved (List.Sublist.refl _) (hmissed habsent)
      | admitted habsent hanswer hstorable hroom fresh =>
          have hrest := fun e he => hmissed habsent e (hroom.items_sublist.subset he)
          have hadmits := h.admits_of_absent h' habsent List.mem_cons_self rfl
          exact Ranked.insert [] (hlog.unserved hroom.items_sublist hrest) hrest nofun
            (Moment.serves_of_admits hadmits)
  | invalidated hslots =>
      rw [CutSequence.items_removeAll]
      exact hlog.unserved List.filter_sublist
        fun e he => Moment.serves_eq_false_of_deed nofun
  | cleared => exact .nil _ _

theorem Chronicle.ranked (h : Chronicle c (.empty : Contents config) log c₁ s) :
    Ranked config.maxNew.toNat log s.items := by
  induction h with
  | refl => exact .nil _ _
  | passed hpast hbefore hpasses hafter ih =>
      exact hpasses.ranked hbefore hafter hpast.counters.new ih
  | counted _ ih => exact ih

theorem Chronicle.stamped (h : Chronicle c (.empty : Contents config) log c₁ s) :
    Stamped log s.items :=
  h.ranked.stamped

/--
Of two blocks with the same counter, the one nearer to the front was accessed later. While
there are blocks in Old, the block that is evicted is the least of them in the order of
counters and, for equal counters, last accesses; and no other block goes.
-/
theorem recency_of_reached (h : ReachedBy config log c) :
    Completes c.residents fun residents =>
      (forall r, r ∈ residents -> 0 < lastAccess log r.1.key) ∧
        residents.Pairwise (fun r r' => r.1.counter = r'.1.counter ->
          lastAccess log r'.1.key < lastAccess log r.1.key) ∧
        ((exists r, r ∈ residents ∧ r.2 = .old) ->
          Completes c.evict fun step =>
            exists victim, step.value = some victim ∧ (victim, .old) ∈ residents ∧
              (forall r, r ∈ residents -> r.2 = .old -> r.1 ≠ victim ->
                EvictedBefore log victim r.1) ∧
              forall key : BlockKey, step.cache.isResident key.fd key.index = true <->
                c.isResident key.fd key.index = true ∧ key ≠ victim.key) := by
  rcases h.chronicle with ⟨-, created, s, hchronicle, hs⟩
  have hstamped := hchronicle.stamped
  refine hs.residents_completes.mono ?_
  rintro residents rfl
  refine ⟨?_, ?_, ?_⟩
  · intro r hr
    rcases Zones.mem_map_residents_iff.mp hr with ⟨slot, hzone⟩
    exact hstamped.accessed _ (CutSequence.mem_items_of_zone hzone)
  · have hordered := hstamped.ordered
    rw [<- s.items_zones, <- s.zones.map_residents, List.pairwise_map] at hordered
    exact List.pairwise_map.mpr hordered
  · rintro ⟨⟨block, _⟩, hr, rfl⟩
    rcases Zones.mem_map_residents_iff.mp hr with ⟨slot, hzone⟩
    have hne : s.items ≠ [] := List.ne_nil_of_mem (CutSequence.mem_items_of_zone hzone)
    refine (evict_completes hs hne).mono ?_
    rintro step ⟨slot, victim, list, moves, hcandidate, hmem, hstep, hs'⟩
    rcases hstamped.evictedBefore hcandidate hmem (List.ne_nil_of_mem hzone) with
      ⟨hvictim, hleast⟩
    refine ⟨victim, congrArg Step.value hstep, ?_, ?_, fun key => hs.isResident_remove_iff hs' hmem⟩
    · exact Zones.mem_map_residents_iff.mpr ⟨slot, hvictim⟩
    · rintro ⟨block, _⟩ hr rfl hne
      rcases Zones.mem_map_residents_iff.mp hr with ⟨slot, hzone⟩
      exact hleast _ hzone hne

def threeOld : Config :=
  { maxOld := 3, blockSize := 2, maxNew := 1, capacity := 4 }

theorem recency_of_reached_unsorted :
    exists (log : List (Moment MemoryFiles)) (c : Cache MemoryFiles),
      ReachedBy threeOld log c ∧ Completes c.residents fun residents =>
        residents.map (fun r => (r.1.index, r.1.counter, lastAccess log r.1.key)) =
            [(⟨3⟩, 0, 5), (⟨2⟩, 0, 4), (⟨1⟩, 0, 2), (⟨0⟩, 1, 3)] ∧
          Completes c.evict fun step =>
            exists victim, step.value = some victim ∧ victim.index = ⟨1⟩ ∧
              forall r, r ∈ residents -> r.2 = .old -> r.1 ≠ victim ->
                EvictedBefore log victim r.1 := by
  have hrun : Completes (create threeOld eightBytes) fun created =>
      Completes (created.cache.perform (.read ⟨5⟩ ⟨0⟩ [0, 0, 0])) fun first =>
        Completes (first.cache.perform (.read ⟨5⟩ ⟨0⟩ [0])) fun second =>
          Completes (second.cache.perform (.read ⟨5⟩ ⟨4⟩ [0, 0, 0])) fun last =>
            (Completes last.cache.residents fun residents =>
              residents.map (fun r => (r.1.index, r.1.counter,
                lastAccess ([] ++ created.cache.journal (.read ⟨5⟩ ⟨0⟩ [0, 0, 0]) ++
                  first.cache.journal (.read ⟨5⟩ ⟨0⟩ [0]) ++
                  second.cache.journal (.read ⟨5⟩ ⟨4⟩ [0, 0, 0])) r.1.key)) =
                [(⟨3⟩, 0, 5), (⟨2⟩, 0, 4), (⟨1⟩, 0, 2), (⟨0⟩, 1, 3)] ∧
              exists r, r ∈ residents ∧ r.2 = .old) ∧
            Completes last.cache.evict fun step =>
              step.value.map Block.index = some ⟨1⟩ := by
    refine ⟨_, rfl, _, rfl, _, rfl, _, rfl, ⟨_, rfl, ?_⟩, _, rfl, rfl⟩
    decide +kernel
  rcases hrun with ⟨created, hcreate, first, hfirst, second, hsecond, last, hlast,
    ⟨residents, hresidents, hstamps, hold⟩, step, hevict, hindex⟩
  have hreached := ReachedBy.created hcreate
    (((Trail.refl.performed hfirst).performed hsecond).performed hlast)
  rcases (recency_of_reached hreached).of_eq hresidents with ⟨-, -, hevicted⟩
  rcases (hevicted hold).of_eq hevict with ⟨victim, hvictim, -, hleast, -⟩
  refine ⟨_, _, hreached, residents, hresidents, hstamps, step, hevict, victim, hvictim, ?_, hleast⟩
  rw [hvictim] at hindex
  exact Option.some.inj hindex

end Cache
end BlockCache

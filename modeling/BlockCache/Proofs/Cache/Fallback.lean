import BlockCache.Proofs.Cache.Provenance
import BlockCache.Proofs.Cache.Recency
import BlockCache.Proofs.Cache.SpecialSizes

/-!
# Evictions without Old

If Old has no room for blocks, a full cache evicts the last block of its recency list. That
block need not be the one that was accessed longest ago. A hit behind New leaves the block
there, and blocks that were accessed before it come to stand in front of it once they leave
New.

The blocks that may wrongly outlive the victim are those without references. There are none
if New has room for no block or for all, and with any other size of New there are.
-/

namespace BlockCache
namespace Cache

section Victims

variable {σ : Type} {config : Config} {log : List (Moment σ)} {c : Cache σ}
  {s s' : Contents config} {key : BlockKey}

/-- The block was last accessed before the other one. -/
def Older (log : List (Moment σ)) (block other : Block) : Prop :=
  lastAccess log block.key < lastAccess log other.key

theorem MadeRoom.last (hold : config.maxOld = 0) {room : Step σ (Option Block)}
    (hkeys : s.keys.Nodup) (hfull : config.capacity.toNat <= s.items.length)
    (hroom : MadeRoom c s room s') :
    exists block, s.shelf.blocks.getLast? = some block ∧ lost s s' = [block.key] := by
  cases hroom with
  | spare hlt => exact absurd hfull (Nat.not_le.mpr hlt)
  | evicted hlength hcandidate hmem =>
      rename_i slot block list moves
      have hzero : config.maxOld.toNat = 0 := congrArg UInt64.toNat hold
      have hvictim := CutSequence.victim?_shelf hcandidate hmem
      have hlast := s.shelf.victim?_of_maxOld_eq_zero
      rw [<- hzero, hvictim] at hlast
      exact ⟨block, hlast.symm, lost_remove hkeys hmem⟩

theorem Ranked.older (hranked : Ranked config.maxNew.toNat log s.items) {block other : Block}
    (hlast : s.shelf.blocks.getLast? = some block) (hother : other ∈ s.shelf.blocks)
    (hne : other ≠ block) (hcomparable : Comparable config.maxNew.toNat other block) :
    Older log block other := by
  have hordered : s.shelf.blocks.Pairwise fun b b' =>
      Comparable config.maxNew.toNat b b' -> Older log b' b :=
    List.pairwise_map.mpr hranked.ordered
  rcases List.getLast?_eq_some_iff.mp hlast with ⟨front, hblocks⟩
  rw [hblocks] at hordered hother
  rcases List.mem_append.mp hother with hfront | hself
  · exact (List.pairwise_append.mp hordered).2.2 other hfront block (List.mem_singleton_self _)
      hcomparable
  · exact absurd (List.mem_singleton.mp hself) hne

theorem counter_eq_zero_of_all_new (hall : config.maxNew = config.capacity)
    (hnew : forall e, e ∈ s.zones.news -> e.2.counter = 0)
    (hfits : s.Fits config.capacity.toNat) {block : Block} (hblock : block ∈ s.shelf.blocks) :
    block.counter = 0 := by
  have hnews : s.shelf.news = s.shelf.blocks :=
    List.take_of_length_le (length_shelf_le_cut hall hfits)
  rw [<- hnews, CutSequence.news_shelf] at hblock
  rcases List.mem_map.mp hblock with ⟨e, he, rfl⟩
  exact hnew e he

theorem residents_eq_of_fst_eq (h : s.keys.Nodup) {maxOld : Nat} {r r' : Block × Segment}
    (hr : r ∈ s.shelf.residents maxOld) (hr' : r' ∈ s.shelf.residents maxOld)
    (hblock : r.1 = r'.1) : r = r' := by
  rw [CutSequence.keys_eq_map_shelf, <- Shelf.map_fst_residents s.cut_shelf_le maxOld] at h
  exact List.inj_on_of_nodup_map h.of_map hr hr' hblock

variable [BlockSource σ]

/--
A block that is admitted takes the place of the last block of the list, and `P` holds of that
block and of every other one that was there.
-/
def GivesWay (P : Block -> Block -> Prop) (c : Cache σ) : Prop :=
  forall key : BlockKey, Completes (c.access key.fd key.index) fun step =>
    (⟨.access key, c, step.cache⟩ : Moment σ).admits key = true ->
      Completes c.residents fun residents =>
        exists victim, residents.getLast? = some victim ∧
          (⟨.access key, c, step.cache⟩ : Moment σ).evicted = [victim.1.key] ∧
          forall other, other ∈ residents -> other ≠ victim -> P victim.1 other.1

theorem GivesWay.mono {P Q : Block -> Block -> Prop} (h : c.GivesWay P)
    (hPQ : forall victim other, P victim other -> Q victim other) : c.GivesWay Q := by
  intro key
  apply (h key).mono
  intro step hstep hadmits
  apply (hstep hadmits).mono
  intro residents hresidents
  rcases hresidents with ⟨victim, hlast, hevicted, hothers⟩
  exact ⟨victim, hlast, hevicted, fun other hother hne => hPQ _ _ (hothers other hother hne)⟩

theorem Accessed.last_evicted (hold : config.maxOld = 0) (h : Coherent config c s)
    {step : Step σ (Except Error (Option Slot))} (h' : Coherent config step.cache s')
    (hfull : config.capacity.toNat <= s.items.length) (haccessed : Accessed c s key step s')
    (hadmits : (⟨.access key, c, step.cache⟩ : Moment σ).admits key = true) :
    exists block, s.shelf.blocks.getLast? = some block ∧
      (⟨.access key, c, step.cache⟩ : Moment σ).evicted = [block.key] := by
  rw [evicted_access h h']
  simp only [Moment.admits, Moment.fetches, Bool.and_eq_true, Bool.not_eq_true'] at hadmits
  rcases hadmits with ⟨⟨-, hbefore⟩, hafter⟩
  have habsent := h.isResident_eq_false_iff.mp hbefore
  cases haccessed with
  | hit hmem hkey => exact absurd hkey (habsent.key_ne hmem)
  | failed | oversized | pastEnd =>
      exact absurd (h'.isResident_iff_keys.mp hafter) (absent_iff.mp habsent)
  | admitted _ hanswer hstorable hroom fresh =>
      rw [lost_push (absent_iff.mp habsent)]
      exact hroom.last hold h.nodup_keys hfull

theorem Chronicle.older_or_credited {created : Cache σ}
    (hchronicle : Chronicle created (.empty : Contents config) log c s)
    (hfits : s.Fits config.capacity.toNat) {block other : Block}
    (hlast : s.shelf.blocks.getLast? = some block) (hother : other ∈ s.shelf.blocks)
    (hne : other ≠ block) :
    Older log block other ∨ config.maxNew ≠ 0 ∧ config.maxNew ≠ config.capacity ∧
      block.counter ≠ 0 ∧ other.counter = 0 := by
  by_cases hcomparable : Comparable config.maxNew.toNat other block
  · exact .inl (hchronicle.ranked.older hlast hother hne hcomparable)
  · simp only [Comparable, not_or, not_not] at hcomparable
    rcases hcomparable with ⟨hsome, hzero, hcounter⟩
    refine .inr ⟨?_, ?_, hcounter, hzero⟩
    · intro hnone
      exact hsome (congrArg UInt64.toNat hnone)
    · intro hall
      exact hcounter (counter_eq_zero_of_all_new hall hchronicle.counters.new hfits
        (List.mem_of_getLast? hlast))

theorem ReachedBy.givesWay (h : ReachedBy config log c) (hold : config.maxOld = 0)
    (hfull : c.length = config.capacity.toNat) :
    c.GivesWay fun victim other => Older log victim other ∨
      config.maxNew ≠ 0 ∧ config.maxNew ≠ config.capacity ∧
        victim.counter ≠ 0 ∧ other.counter = 0 := by
  rcases h.chronicle with ⟨hvalid, created, s, hchronicle, hs⟩
  intro key
  rcases access_completes hvalid hs key with ⟨step, hstep, s', haccessed, hs'⟩
  refine ⟨step, hstep, ?_⟩
  intro hadmits
  rw [hs.length_eq] at hfull
  rcases haccessed.last_evicted hold hs hs' (Nat.le_of_eq hfull.symm) hadmits with
    ⟨block, hlast, hevicted⟩
  have hblocks := Shelf.map_fst_residents s.cut_shelf_le config.maxOld.toNat
  have hresident := hlast
  rw [<- hblocks, List.getLast?_map] at hresident
  rcases Option.map_eq_some_iff.mp hresident with ⟨victim, hvictim, rfl⟩
  rw [hs.residents_eq]
  apply Completes.ok
  refine ⟨victim, hvictim, hevicted, ?_⟩
  intro other hother hne
  have hmem : other.1 ∈ s.shelf.blocks := hblocks ▸ List.mem_map_of_mem hother
  apply hchronicle.older_or_credited hs.fits hlast hmem
  intro hblock
  exact hne (residents_eq_of_fst_eq hs.nodup_keys hother (List.mem_of_getLast? hvictim) hblock)

theorem ReachedBy.givesWay_older (h : ReachedBy config log c) (hold : config.maxOld = 0)
    (hnew : config.maxNew = 0 ∨ config.maxNew = config.capacity)
    (hfull : c.length = config.capacity.toNat) : c.GivesWay (Older log) := by
  apply (h.givesWay hold hfull).mono
  intro victim other hvictim
  rcases hvictim with holder | ⟨hsome, hrest, -⟩
  · exact holder
  · rcases hnew with hnone | hall
    · exact absurd hnone hsome
    · exact absurd hall hrest

end Victims

/-!
# A younger victim

New has room for some blocks, and so has Middle. One block more is admitted than New has room
for, and the first of them is hit where it is, behind New. From then on it is younger than the
second; but all blocks that are admitted until the cache is full come in front of it.
-/

section Younger

variable {config : Config} {log : List (Moment Ticking)} {c : Cache Ticking} {s : Contents config}
  {keys : List BlockKey} {key : BlockKey} {cut : Nat}

theorem ReachedBy.access {σ : Type} [BlockSource σ] {log : List (Moment σ)} {c : Cache σ}
    {step : Step σ (Except Error (Option Slot))} (h : ReachedBy config log c)
    (haccess : c.access key.fd key.index = .ok step) :
    ReachedBy config (log ++ [⟨.access key, c, step.cache⟩]) step.cache := by
  cases h with
  | created hcreate htrail => exact .created hcreate (htrail.accessed haccess)

/-- The cache is reached by the journal, and it has the keys, with so many of them in New. -/
def Holds (config : Config) (log : List (Moment Ticking)) (c : Cache Ticking)
    (keys : List BlockKey) (cut : Nat) : Prop :=
  ReachedBy config log c ∧
    exists s : Contents config, Coherent config c s ∧ s.keys = keys ∧ s.cut = cut

theorem lastAccess_concat_of_ne {σ : Type} {log : List (Moment σ)} {c c' : Cache σ}
    {key other : BlockKey} (hne : other ≠ key) :
    lastAccess (log ++ [⟨.access key, c, c'⟩]) other = lastAccess log other := by
  have hserves : (⟨.access key, c, c'⟩ : Moment σ).serves other = false :=
    Moment.serves_eq_false_of_deed fun hdeed => hne (Deed.access.inj hdeed).symm
  rw [lastAccess_concat, hserves]
  rfl

theorem ticking_access_completes (hvalid : config.Valid) (h : Coherent config c s)
    (habsent : key ∉ s.keys) :
    Completes (c.access key.fd key.index) fun step =>
      exists (room : Step Ticking (Option Block)) (s₁ : Contents config) (slot : Slot)
        (data : Bytes) (fresh : slot ∉ s₁.slots), MadeRoom (c.asked key) s room s₁ ∧
          Coherent config step.cache (s₁.push slot
            { fd := key.fd, index := key.index, counter := 0, data := data } fresh) := by
  apply (access_completes hvalid h key).mono
  intro step hstep
  rcases hstep with ⟨s', haccessed, h'⟩
  have hsize := hvalid.blockSize_pos
  cases haccessed with
  | hit hmem hkey => exact absurd (hkey ▸ CutSequence.mem_keys hmem) habsent
  | failed _ hanswer => cases hanswer
  | oversized _ hanswer hlength =>
      cases hanswer
      exact absurd hsize (Nat.not_lt.mpr (Nat.le_of_lt_succ hlength))
  | pastEnd _ hanswer => cases hanswer
  | admitted _ hanswer hstorable hroom fresh => exact ⟨_, _, _, _, fresh, hroom, h'⟩

theorem Holds.admitted (hvalid : config.Valid) (h : Holds config log c keys cut)
    (hkey : key ∉ keys) (hroom : keys.length < config.capacity.toNat) :
    exists c', Holds config (log ++ [⟨.access key, c, c'⟩]) c' (key :: keys)
      (min (cut + 1) config.maxNew.toNat) := by
  rcases h with ⟨hreached, s, hs, rfl, rfl⟩
  rcases ticking_access_completes hvalid hs hkey with
    ⟨step, haccess, room, s₁, slot, data, fresh, hmade, hs'⟩
  rw [CutSequence.length_keys] at hroom
  cases hmade with
  | spare hlt => exact ⟨step.cache, hreached.access haccess, _, hs', rfl, rfl⟩
  | evicted hfull hcandidate hmem => exact absurd hroom (Nat.not_lt.mpr hfull)

theorem Holds.admittedAll (hvalid : config.Valid) (h : Holds config log c keys cut)
    (new : List BlockKey) (hnodup : (new.reverse ++ keys).Nodup)
    (hroom : new.length + keys.length <= config.capacity.toNat) :
    exists log' c', Holds config (log ++ log') c' (new.reverse ++ keys)
        (min (cut + new.length) config.maxNew.toNat) ∧
      forall other, other ∉ new -> lastAccess (log ++ log') other = lastAccess log other := by
  induction new generalizing log c keys cut with
  | nil =>
      have hcut : min (cut + 0) config.maxNew.toNat = cut := by
        rcases h with ⟨-, s, -, -, rfl⟩
        exact Nat.min_eq_left s.cut_le_maxNew
      refine ⟨[], c, ?_, ?_⟩
      · rw [List.append_nil, List.length_nil, hcut]
        exact h
      · intro other hother
        rw [List.append_nil]
  | cons key new ih =>
      rw [List.reverse_cons, List.append_assoc, List.singleton_append] at hnodup ⊢
      have hkey : key ∉ keys := (List.nodup_cons.mp hnodup.of_append_right).1
      rw [List.length_cons] at hroom ⊢
      rcases h.admitted hvalid hkey (by omega) with ⟨c₁, h₁⟩
      have hroom₁ : new.length + (key :: keys).length <= config.capacity.toNat := by
        rw [List.length_cons]
        omega
      rcases ih h₁ hnodup hroom₁ with ⟨log', c', h', hothers⟩
      have hcut : min (min (cut + 1) config.maxNew.toNat + new.length) config.maxNew.toNat =
          min (cut + (new.length + 1)) config.maxNew.toNat := by
        omega
      rw [hcut] at h'
      refine ⟨⟨.access key, c, c₁⟩ :: log', c', ?_, ?_⟩
      · rw [List.append_cons]
        exact h'
      · intro other hother
        rw [List.append_cons, hothers other (List.not_mem_of_not_mem_cons hother),
          lastAccess_concat_of_ne (List.ne_of_not_mem_cons hother)]

theorem map_key_touch_last {s : Shelf} {block : Block} {front : List BlockKey}
    (hkeys : s.blocks.map Block.key = front ++ [block.key])
    (hnodup : (front ++ [block.key]).Nodup) (hcut : s.cut = front.length) :
    (s.touch block).blocks.map Block.key = front ++ [block.key] := by
  have hfront : block.key ∉ front := by
    intro hmem
    exact (List.nodup_append.mp hnodup).2.2 _ hmem _ (List.mem_singleton_self _) rfl
  have hbehind : block ∉ s.news := by
    intro hmem
    have hnews : s.news.map Block.key = front := by
      rw [Shelf.news, List.map_take, hkeys, hcut, List.take_left]
    exact hfront (hnews ▸ List.mem_map_of_mem hmem)
  have hothers : (s.blocks.filter fun other => other.key ≠ block.key).map Block.key = front := by
    have hstay : front.filter (fun other => other ≠ block.key) = front := by
      apply List.filter_eq_self.mpr
      intro other hother
      exact decide_eq_true (ne_of_mem_of_not_mem hother hfront)
    have hfilter : (s.blocks.map Block.key).filter (fun other => other ≠ block.key) = front := by
      rw [hkeys, List.filter_append, hstay]
      simp
    rw [List.filter_map] at hfilter
    exact hfilter
  simp only [Shelf.touch, if_neg hbehind]
  rw [List.map_append, List.map_cons, List.map_take, List.map_drop, hothers, hcut,
    List.take_length, List.drop_length, block.key_credit]

theorem Holds.hitLast (hvalid : config.Valid) {front : List BlockKey}
    (h : Holds config log c (front ++ [key]) front.length) :
    exists c', Holds config (log ++ [⟨.access key, c, c'⟩]) c' (front ++ [key]) front.length ∧
      (⟨.access key, c, c'⟩ : Moment Ticking).serves key = true := by
  rcases h with ⟨hreached, s, hs, hkeys, hcut⟩
  have hthere : key ∈ s.keys := hkeys ▸ List.mem_append_right _ (List.mem_singleton_self _)
  rcases access_completes hvalid hs key with ⟨step, haccess, s', haccessed, hs'⟩
  cases haccessed with
  | hit hmem hkey =>
      rename_i slot block list moves
      cases hkey
      have hnodup : (front ++ [block.key]).Nodup := hkeys ▸ hs.nodup_keys
      have hblocks : s.shelf.blocks.map Block.key = front ++ [block.key] :=
        s.keys_eq_map_shelf ▸ hkeys
      refine ⟨_, ⟨hreached.access haccess, _, hs', ?_, ?_⟩, hs.serves_of_mem hmem⟩
      · rw [CutSequence.keys_eq_map_shelf, CutSequence.shelf_touch hs.nodup_keys hmem]
        exact map_key_touch_last hblocks hnodup hcut
      · rw [CutSequence.cut_touch, hcut]
  | failed habsent | oversized habsent | pastEnd habsent =>
      exact absurd hthere (absent_iff.mp habsent)
  | admitted habsent => exact absurd hthere (absent_iff.mp habsent)

theorem create_holds (hvalid : config.Valid) :
    exists c, Holds config [] c [] 0 := by
  rcases create_completes hvalid (⟨0⟩ : Ticking) with ⟨created, hcreate, -, hcreated⟩
  exact ⟨created.cache, .created hcreate .refl, .empty, hcreated, rfl, rfl⟩

theorem exists_younger_last (hvalid : config.Valid) {first second : BlockKey}
    {early late : List BlockKey} (hsecond : second ∈ early)
    (hearly : early.length = config.maxNew.toNat)
    (hnodup : (late.reverse ++ (early.reverse ++ [first])).Nodup)
    (hlength : late.length + (early.length + 1) = config.capacity.toNat) :
    exists log c cut, Holds config log c (late.reverse ++ (early.reverse ++ [first])) cut ∧
      lastAccess log second < lastAccess log first := by
  have hfirst : (early.reverse ++ [first]).Nodup := hnodup.of_append_right
  have hlate : forall key, key ∈ early.reverse ++ [first] -> key ∉ late := by
    intro key hkey hmem
    exact (List.nodup_append.mp hnodup).2.2 key (List.mem_reverse.mpr hmem) key hkey rfl
  have hmem : second ∈ early.reverse ++ [first] :=
    List.mem_append_left _ (List.mem_reverse.mpr hsecond)
  have hne : second ≠ first := by
    intro heq
    exact (List.nodup_append.mp hfirst).2.2 second (List.mem_reverse.mpr hsecond) first
      (List.mem_singleton_self _) heq
  rcases create_holds hvalid with ⟨c₀, h₀⟩
  have hsome : (first :: early).reverse ++ [] = early.reverse ++ [first] := by
    simp
  rcases h₀.admittedAll hvalid (first :: early) (hsome ▸ hfirst)
    (by simp only [List.length_cons, List.length_nil]; omega) with ⟨log₁, c₁, h₁, -⟩
  have hcut : min (0 + (first :: early).length) config.maxNew.toNat = early.reverse.length := by
    rw [List.length_cons, List.length_reverse]
    omega
  rw [hsome, hcut, List.nil_append] at h₁
  rcases h₁.hitLast hvalid with ⟨c₂, h₂, hserves⟩
  have hyounger : lastAccess (log₁ ++ [⟨.access first, c₁, c₂⟩]) second <
      lastAccess (log₁ ++ [⟨.access first, c₁, c₂⟩]) first := by
    rw [lastAccess_concat_of_ne hne, lastAccess_concat, if_pos hserves]
    exact lastAccess_lt log₁ second
  rcases h₂.admittedAll hvalid late hnodup (by simp; omega) with ⟨log₃, c₃, h₃, hkept⟩
  refine ⟨_, c₃, _, h₃, ?_⟩
  rw [hkept second (hlate second hmem),
    hkept first (hlate first (List.mem_append_right _ (List.mem_singleton_self _)))]
  exact hyounger

theorem Holds.not_givesWay (hvalid : config.Valid) {front : List BlockKey}
    {last second : BlockKey} (h : Holds config log c (front ++ [last]) cut)
    (hsecond : second ∈ front) (hyounger : lastAccess log second < lastAccess log last)
    (key : BlockKey) (hkey : key ∉ front ++ [last]) : ¬ c.GivesWay (Older log) := by
  intro hway
  rcases h with ⟨-, s, hs, hkeys, -⟩
  rw [<- hkeys] at hkey
  rcases hway key with ⟨step, haccess, hstep⟩
  rcases (ticking_access_completes hvalid hs hkey).of_eq haccess with
    ⟨room, s₁, slot, data, fresh, -, hs'⟩
  have hadmits := hs.admits_of_absent hs' (absent_iff.mpr hkey) List.mem_cons_self rfl
  rcases hstep hadmits with ⟨residents, hresidents, victim, hlast, -, hothers⟩
  have hshown : (residents.map fun r => r.1.key) = front ++ [last] := by
    have hresident := hs.residentKeys_eq
    rw [residentKeys, hresidents, hkeys] at hresident
    exact hresident
  have hvictim : victim.1.key = last := by
    have hgetLast := congrArg List.getLast? hshown
    rw [List.getLast?_map, hlast, List.getLast?_concat] at hgetLast
    exact Option.some.inj hgetLast
  have hmem : second ∈ residents.map fun r => r.1.key :=
    hshown ▸ List.mem_append_left _ hsecond
  rcases List.mem_map.mp hmem with ⟨other, hother, rfl⟩
  rw [<- hvictim] at hyounger
  have hne : other ≠ victim := by
    intro heq
    rw [heq] at hyounger
    exact Nat.lt_irrefl _ hyounger
  exact Nat.lt_asymm hyounger (hothers other hother hne)

def page (i : Nat) : BlockKey :=
  ⟨⟨0⟩, ⟨UInt64.ofNat i⟩⟩

theorem nodup_pages {n : Nat} (h : n <= UInt64.size) : ((List.range' 0 n).map page).Nodup := by
  apply List.Nodup.map_on _ List.nodup_range'
  intro i hi j hj hpage
  rw [List.mem_range'_1] at hi hj
  have hnumber : forall k, k < n -> (page k).index.number.toNat = k :=
    fun k hk => UInt64.toNat_ofNat_of_lt (Nat.lt_of_lt_of_le hk h)
  rw [<- hnumber i (by omega), <- hnumber j (by omega), hpage]

/-- With room in New and behind it, a full cache may evict a block that is not the oldest. -/
theorem exists_not_givesWay (hvalid : config.Valid) (hnone : config.maxNew ≠ 0)
    (hall : config.maxNew ≠ config.capacity) :
    exists log c, ReachedBy config log c ∧ c.length = config.capacity.toNat ∧
      ¬ GivesWay (σ := Ticking) (Older log) c := by
  have hreserved := hvalid.reserved_le
  have hpos : config.maxNew.toNat ≠ 0 := fun hzero => hnone (UInt64.toNat_inj.mp hzero)
  have hless : config.maxNew.toNat ≠ config.capacity.toNat :=
    fun hsame => hall (UInt64.toNat_inj.mp hsame)
  have hpages : List.range' 0 config.capacity.toNat = 0 :: (List.range' 1 config.maxNew.toNat ++
      List.range' (1 + config.maxNew.toNat)
        (config.capacity.toNat - (1 + config.maxNew.toNat))) := by
    have hcount : config.capacity.toNat =
        config.maxNew.toNat + (config.capacity.toNat - (1 + config.maxNew.toNat)) + 1 := by
      omega
    rw [List.range'_append_1]
    conv => lhs; rw [hcount, List.range'_succ]
  have hnodup := nodup_pages (Nat.le_of_lt config.capacity.toNat_lt_size)
  rw [<- List.nodup_reverse, hpages, List.map_cons, List.map_append, List.reverse_cons,
    List.reverse_append, List.append_assoc] at hnodup
  have hsecond : page 1 ∈ (List.range' 1 config.maxNew.toNat).map page :=
    List.mem_map_of_mem (List.mem_range'_1.mpr (by omega))
  rcases exists_younger_last hvalid hsecond (by simp) hnodup (by simp; omega) with
    ⟨log, c, cut, hholds, hyounger⟩
  rw [<- List.append_assoc] at hholds
  refine ⟨log, c, hholds.1, ?_, ?_⟩
  · rcases hholds with ⟨-, s, hs, hkeys, -⟩
    rw [hs.length_eq, <- CutSequence.length_keys, hkeys]
    simp
    omega
  · -- A block of another file is not there yet.
    refine hholds.not_givesWay hvalid (List.mem_append_right _ (List.mem_reverse.mpr hsecond))
      hyounger ⟨⟨1⟩, ⟨0⟩⟩ ?_
    simp [page]

end Younger

/-!
# Reached caches
-/

/--
Without Old, a full cache gives way with its last block. That block is older than every other
one, except that a block with references may not be older than those without. Exactly if New
has room for no block or for all, it is the oldest block in every full cache that is reached.
-/
theorem fallback_evicts_last {config : Config} (hvalid : config.Valid)
    (hold : config.maxOld = 0) :
    (forall (σ : Type) [BlockSource σ] (log : List (Moment σ)) (c : Cache σ),
        ReachedBy config log c -> c.length = config.capacity.toNat ->
          c.GivesWay fun victim other =>
            Older log victim other ∨ (victim.counter ≠ 0 ∧ other.counter = 0)) ∧
      ((forall (σ : Type) [BlockSource σ] (log : List (Moment σ)) (c : Cache σ),
          ReachedBy config log c -> c.length = config.capacity.toNat ->
            c.GivesWay (Older log)) <->
        config.maxNew = 0 ∨ config.maxNew = config.capacity) := by
  refine ⟨?_, ?_, ?_⟩
  · intro σ _ log c hreached hfull
    apply (hreached.givesWay hold hfull).mono
    intro victim other hvictim
    rcases hvictim with holder | ⟨-, -, hcounters⟩
    · exact .inl holder
    · exact .inr hcounters
  · intro holdest
    by_cases hnone : config.maxNew = 0
    · exact .inl hnone
    · by_cases hall : config.maxNew = config.capacity
      · exact .inr hall
      · rcases exists_not_givesWay hvalid hnone hall with ⟨log, c, hreached, hfull, hnot⟩
        exact absurd (holdest Ticking log c hreached hfull) hnot
  · intro hnew σ _ log c hreached hfull
    exact hreached.givesWay_older hold hnew hfull

theorem fallback_evicts_last_two_blocks :
    ((noneOld 1).Valid ∧ ¬ forall (σ : Type) [BlockSource σ] (log : List (Moment σ)) (c : Cache σ),
        ReachedBy (noneOld 1) log c -> c.length = 2 -> c.GivesWay (Older log)) ∧
      (noneOld 2).Valid ∧ forall (σ : Type) [BlockSource σ] (log : List (Moment σ)) (c : Cache σ),
        ReachedBy (noneOld 2) log c -> c.length = 2 -> c.GivesWay (Older log) := by
  have hone : (noneOld 1).Valid := Config.flaw?_eq_none_iff.mp (by decide)
  have htwo : (noneOld 2).Valid := Config.flaw?_eq_none_iff.mp (by decide)
  refine ⟨⟨hone, ?_⟩, htwo, ?_⟩
  · intro holdest
    exact absurd ((fallback_evicts_last hone rfl).2.mp holdest) (by decide)
  · exact (fallback_evicts_last htwo rfl).2.mpr (.inr rfl)

/-- Two blocks are read, the first again, and then a third: the first goes, not the second. -/
theorem fallback_evicts_younger :
    exists (log : List (Moment MemoryFiles)) (c : Cache MemoryFiles),
      ReachedBy (noneOld 1) log c ∧ c.length = (noneOld 1).capacity.toNat ∧
        (Completes c.residents fun residents =>
          residents.map (fun r => (r.1.key, r.1.counter, lastAccess log r.1.key)) =
            [(⟨⟨5⟩, ⟨1⟩⟩, 0, 2), (⟨⟨5⟩, ⟨0⟩⟩, 1, 3)]) ∧
        Completes (c.access ⟨5⟩ ⟨2⟩) fun step =>
          (⟨.access ⟨⟨5⟩, ⟨2⟩⟩, c, step.cache⟩ : Moment MemoryFiles).evicted = [⟨⟨5⟩, ⟨0⟩⟩] := by
  have hrun : Completes (create (noneOld 1) eightBytes) fun created =>
      Completes (created.cache.perform (.read ⟨5⟩ ⟨0⟩ [0])) fun first =>
        Completes (first.cache.perform (.read ⟨5⟩ ⟨2⟩ [0])) fun second =>
          Completes (second.cache.perform (.read ⟨5⟩ ⟨0⟩ [0])) fun third =>
            third.cache.length = (noneOld 1).capacity.toNat ∧
              (Completes third.cache.residents fun residents =>
                residents.map (fun r => (r.1.key, r.1.counter,
                  lastAccess ([] ++ created.cache.journal (.read ⟨5⟩ ⟨0⟩ [0]) ++
                    first.cache.journal (.read ⟨5⟩ ⟨2⟩ [0]) ++
                    second.cache.journal (.read ⟨5⟩ ⟨0⟩ [0])) r.1.key)) =
                  [(⟨⟨5⟩, ⟨1⟩⟩, 0, 2), (⟨⟨5⟩, ⟨0⟩⟩, 1, 3)]) ∧
              Completes (third.cache.access ⟨5⟩ ⟨2⟩) fun step =>
                (⟨.access ⟨⟨5⟩, ⟨2⟩⟩, third.cache, step.cache⟩ : Moment MemoryFiles).evicted =
                  [⟨⟨5⟩, ⟨0⟩⟩] := by
    refine ⟨_, rfl, _, rfl, _, rfl, _, rfl, ?_, ⟨_, rfl, ?_⟩, _, rfl, ?_⟩
    · decide +kernel
    · decide +kernel
    · decide +kernel
  rcases hrun with ⟨created, hcreate, first, hfirst, second, hsecond, third, hthird, hfacts⟩
  exact ⟨_, _, .created hcreate (((Trail.refl.performed hfirst).performed hsecond).performed
    hthird), hfacts⟩

end Cache
end BlockCache

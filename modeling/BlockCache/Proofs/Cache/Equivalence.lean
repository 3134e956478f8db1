import BlockCache.Proofs.Cache.Plain
import BlockCache.Proofs.Cache.SegmentBalance
import BlockCache.Proofs.Cache.Soundness

/-!
# Equivalent caches

The slots of blocks depend on the past of a cache, and also on the order in which the index
has given the blocks of a file that was dropped. None of this can be seen. Caches with the
same sizes, statistics and blocks in the same segments answer every question and every
operation alike, and they stay so.
-/

namespace BlockCache
namespace Cache

section Definitions

variable {σ τ : Type} [BlockSource σ] [BlockSource τ]

structure Equivalent (c : Cache σ) (c' : Cache τ) : Prop where
  reachable : Reachable c.config c
  reachable' : Reachable c'.config c'
  config_eq : c.config = c'.config
  stats_eq : c.stats = c'.stats
  residents_eq : c.residents = c'.residents

/-- The sources answer alike, now and after any fetches. -/
def Alike (blockSize : UInt32) (source : σ) (source' : τ) : Prop :=
  Behaviour.of blockSize source = Behaviour.of blockSize source'

end Definitions

structure SameAnswers {σ τ : Type} (c : Cache σ) (c' : Cache τ) : Prop where
  config : c.config = c'.config
  capacity : c.capacity = c'.capacity
  stats : c.stats = c'.stats
  length : c.length = c'.length
  isEmpty : c.isEmpty = c'.isEmpty
  segmentSizes : c.segmentSizes = c'.segmentSizes
  isResident : forall fd index, c.isResident fd index = c'.isResident fd index
  counter? : forall fd index, c.counter? fd index = c'.counter? fd index
  segment? : forall fd index, c.segment? fd index = c'.segment? fd index
  residents : c.residents = c'.residents
  check : c.check = c'.check

section Questions

variable {σ τ : Type} {config : Config} {c : Cache σ} {c' : Cache τ} {s s' : Contents config}
  {key : BlockKey}

theorem Coherent.residents_eq (h : Coherent config c s) :
    c.residents = .ok (s.shelf.residents config.maxOld.toNat) := by
  rcases h.residents_completes with ⟨residents, hresidents, heq⟩
  rw [hresidents, heq, CutSequence.residents_shelf]

theorem Coherent.segmentSizes_eq (h : Coherent config c s) :
    c.segmentSizes = ⟨s.shelf.news.length, (s.shelf.middles config.maxOld.toNat).length,
      (s.shelf.olds config.maxOld.toNat).length⟩ := by
  rw [segmentSizes, h.represents.arranged.sizes, CutSequence.news_shelf, CutSequence.middles_shelf,
    CutSequence.olds_shelf, List.length_map, List.length_map, List.length_map]
  rfl

theorem exists_item_iff {P : Block -> Prop} :
    (exists slot block, (slot, block) ∈ s.items ∧ P block) <->
      exists block, block ∈ s.shelf.blocks ∧ P block := by
  constructor
  · intro h
    rcases h with ⟨slot, block, hmem, hP⟩
    exact ⟨block, List.mem_map_of_mem hmem, hP⟩
  · intro h
    rcases h with ⟨block, hmem, hP⟩
    rcases List.mem_map.mp hmem with ⟨e, he, rfl⟩
    exact ⟨e.1, e.2, he, hP⟩

theorem Coherent.segment?_eq_some_iff_residents (h : Coherent config c s) {segment : Segment} :
    c.segment? key.fd key.index = some segment <->
      exists block, (block, segment) ∈ s.shelf.residents config.maxOld.toNat ∧
        block.key = key := by
  rw [h.segment?_eq_some_iff, CutSequence.residents_shelf]
  simp only [Zones.mem_map_residents_iff]
  constructor
  · intro hzone
    rcases hzone with ⟨slot, block, hmem, hkey⟩
    exact ⟨block, ⟨slot, hmem⟩, hkey⟩
  · intro hresident
    rcases hresident with ⟨block, ⟨slot, hmem⟩, hkey⟩
    exact ⟨slot, block, hmem, hkey⟩

theorem Coherent.sameAnswers (h : Coherent config c s) (h' : Coherent config c' s')
    (hstats : c.stats = c'.stats) (hshelf : s.shelf = s'.shelf) : SameAnswers c c' := by
  have hlength : c.length = c'.length := by
    have hblocks := congrArg (fun shelf => shelf.blocks.length) hshelf
    rw [h.length_eq, h'.length_eq, <- s.items.length_map Prod.snd, <- s'.items.length_map Prod.snd]
    exact hblocks
  have hresident : forall key : BlockKey,
      c.isResident key.fd key.index = c'.isResident key.fd key.index := by
    intro key
    rw [Bool.eq_iff_iff, h.isResident_iff, h'.isResident_iff, exists_item_iff, exists_item_iff,
      hshelf]
  have hcounter : forall key : BlockKey,
      c.counter? key.fd key.index = c'.counter? key.fd key.index := by
    intro key
    apply Option.ext
    intro n
    rw [h.counter?_eq_some_iff, h'.counter?_eq_some_iff, exists_item_iff, exists_item_iff, hshelf]
  have hsegment : forall key : BlockKey,
      c.segment? key.fd key.index = c'.segment? key.fd key.index := by
    intro key
    apply Option.ext
    intro segment
    rw [h.segment?_eq_some_iff_residents, h'.segment?_eq_some_iff_residents, hshelf]
  constructor
  · rw [h.config_eq, h'.config_eq]
  · rw [h.capacity_eq, h'.capacity_eq]
  · exact hstats
  · exact hlength
  · rw [isEmpty, isEmpty, hlength]
  · rw [h.segmentSizes_eq, h'.segmentSizes_eq, hshelf]
  · exact fun fd index => hresident ⟨fd, index⟩
  · exact fun fd index => hcounter ⟨fd, index⟩
  · exact fun fd index => hsegment ⟨fd, index⟩
  · rw [h.residents_eq, h'.residents_eq, hshelf]
  · rw [h.sound.check, h'.sound.check]

end Questions

section Operations

variable {σ τ : Type} [BlockSource σ] [BlockSource τ] {config : Config} {c : Cache σ}
  {c' : Cache τ} {s s' : Contents config}

theorem Reachable.coherent (h : Reachable config c) :
    config.Valid ∧ exists s : Contents config, Coherent config c s := by
  induction h with
  | created hcreate =>
      have hvalid := valid_of_create hcreate
      rcases (create_completes hvalid _).of_eq hcreate with ⟨-, hcreated⟩
      exact ⟨hvalid, .empty, hcreated⟩
  | performed _ hperform ih =>
      rcases ih with ⟨hvalid, s, hc⟩
      rcases (perform_plain hvalid hc _).of_eq hperform with ⟨s', -, hc'⟩
      exact ⟨hvalid, s', hc'⟩

/-- Equivalent caches in front of sources that answer alike are the same plain cache. -/
theorem Equivalent.exists_plain (h : Equivalent c c')
    (hsources : Alike c.config.blockSize c.source c'.source) :
    c.config.Valid ∧ exists s s' : Contents c.config,
      Coherent c.config c s ∧ Coherent c.config c' s' ∧ c.plain s = c'.plain s' := by
  have hreachable' : Reachable c.config c' := h.config_eq ▸ h.reachable'
  rcases h.reachable.coherent with ⟨hvalid, s, hc⟩
  rcases hreachable'.coherent with ⟨-, s', hc'⟩
  have hresidents := h.residents_eq
  rw [hc.residents_eq, hc'.residents_eq] at hresidents
  have hfits : forall t : Contents c.config, t.shelf.cut <= t.shelf.blocks.length := by
    intro t
    rw [CutSequence.shelf, List.length_map]
    exact t.cut_le_length
  have hshelf : s.shelf = s'.shelf :=
    Shelf.eq_of_residents_eq (hfits s) (hfits s') (Except.ok.inj hresidents)
  refine ⟨hvalid, s, s', hc, hc', ?_⟩
  rw [plain, plain, hshelf, h.stats_eq, hsources]

theorem equivalent_of_plain (hreachable : Reachable config c)
    (hreachable' : Reachable config c') (hc : Coherent config c s) (hc' : Coherent config c' s')
    (hplain : c.plain s = c'.plain s') :
    Equivalent c c' ∧ Alike c.config.blockSize c.source c'.source := by
  have hshelf : s.shelf = s'.shelf := congrArg PlainCache.shelf hplain
  constructor
  · constructor
    · rw [hc.config_eq]
      exact hreachable
    · rw [hc'.config_eq]
      exact hreachable'
    · rw [hc.config_eq, hc'.config_eq]
    · exact congrArg PlainCache.stats hplain
    · rw [hc.residents_eq, hc'.residents_eq, hshelf]
  · rw [hc.config_eq]
    exact congrArg PlainCache.source hplain

theorem perform_equivalent (hvalid : config.Valid) (hreachable : Reachable config c)
    (hreachable' : Reachable config c') (hc : Coherent config c s) (hc' : Coherent config c' s')
    (hplain : c.plain s = c'.plain s') (operation : Operation) (order order' : SlotOrder) :
    Completes (c.perform (operation.inOrder order)) fun step =>
      Completes (c'.perform (operation.inOrder order')) fun step' =>
        step.value = step'.value ∧ Equivalent step.cache step'.cache ∧
          Alike step.cache.config.blockSize step.cache.source step'.cache.source := by
  rcases perform_plain hvalid hc (operation.inOrder order) with ⟨step, hstep, t, hdone, ht⟩
  rcases perform_plain hvalid hc' (operation.inOrder order') with ⟨step', hstep', t', hdone', ht'⟩
  rw [PlainCache.perform_inOrder] at hdone hdone'
  rw [hplain, hdone'] at hdone
  rcases Prod.mk.inj hdone with ⟨hvalue, hcache⟩
  exact ⟨step, hstep, step', hstep', hvalue.symm, equivalent_of_plain
    (hreachable.performed hstep) (hreachable'.performed hstep') ht ht' hcache.symm⟩

theorem invalidate_invalidate_plain (hvalid : config.Valid) (hreachable : Reachable config c)
    (hc : Coherent config c s) (fd fd' : FileDescriptor) (order order' : SlotOrder) :
    Completes (c.perform (.invalidate fd order)) fun first =>
      Completes (first.cache.perform (.invalidate fd' order')) fun second =>
        Reachable config second.cache ∧ exists t : Contents config,
          Coherent config second.cache t ∧
            second.cache.plain t = ((c.plain s).invalidate fd).invalidate fd' := by
  rcases perform_plain hvalid hc (.invalidate fd order) with ⟨first, hfirst, s₁, hone, h₁⟩
  rcases perform_plain hvalid h₁ (.invalidate fd' order') with ⟨second, hsecond, s₂, htwo, h₂⟩
  have hone' : (c.plain s).invalidate fd = first.cache.plain s₁ := congrArg Prod.snd hone
  have htwo' : (first.cache.plain s₁).invalidate fd' = second.cache.plain s₂ :=
    congrArg Prod.snd htwo
  refine ⟨first, hfirst, second, hsecond, (hreachable.performed hfirst).performed hsecond, s₂,
    h₂, ?_⟩
  rw [hone', htwo']

/--
Equivalent caches in front of sources that answer alike answer every question alike and give
the same results in every operation, with the same bytes, in whatever orders they drop the
blocks of a file; and they are equivalent afterwards. Two files may be dropped in either order.
-/
theorem equivalent_indistinguishable (h : Equivalent c c')
    (hsources : Alike c.config.blockSize c.source c'.source) :
    SameAnswers c c' ∧
      (forall (operation : Operation) (order order' : SlotOrder),
        Completes (c.perform (operation.inOrder order)) fun step =>
          Completes (c'.perform (operation.inOrder order')) fun step' =>
            step.value = step'.value ∧ Equivalent step.cache step'.cache ∧
              Alike step.cache.config.blockSize step.cache.source step'.cache.source) ∧
      forall (fd fd' : FileDescriptor) (o₁ o₂ o₁' o₂' : SlotOrder),
        Completes (c.perform (.invalidate fd o₁)) fun first =>
          Completes (first.cache.perform (.invalidate fd' o₂)) fun second =>
            Completes (c'.perform (.invalidate fd' o₁')) fun first' =>
              Completes (first'.cache.perform (.invalidate fd o₂')) fun second' =>
                Equivalent second.cache second'.cache := by
  have hreachable' : Reachable c.config c' := h.config_eq ▸ h.reachable'
  rcases h.exists_plain hsources with ⟨hvalid, s, s', hc, hc', hplain⟩
  constructor
  · exact hc.sameAnswers hc' h.stats_eq (congrArg PlainCache.shelf hplain)
  constructor
  · exact perform_equivalent hvalid h.reachable hreachable' hc hc' hplain
  · intro fd fd' o₁ o₂ o₁' o₂'
    rcases invalidate_invalidate_plain hvalid h.reachable hc fd fd' o₁ o₂ with
      ⟨first, hfirst, second, hsecond, hreached, t, ht, hdropped⟩
    rcases invalidate_invalidate_plain hvalid hreachable' hc' fd' fd o₁' o₂' with
      ⟨first', hfirst', second', hsecond', hreached', t', ht', hdropped'⟩
    refine ⟨first, hfirst, second, hsecond, first', hfirst', second', hsecond', ?_⟩
    have hsame : second.cache.plain t = second'.cache.plain t' := by
      rw [hdropped, hdropped', hplain, PlainCache.invalidate_comm]
    exact (equivalent_of_plain hreached hreached' ht ht' hsame).1

end Operations

theorem equivalent_indistinguishable_other_slots :
    exists c c' : Cache MemoryFiles,
      c.slot? ⟨5⟩ ⟨0⟩ ≠ c'.slot? ⟨5⟩ ⟨0⟩ ∧ Equivalent c c' ∧
        Alike c.config.blockSize c.source c'.source ∧ SameAnswers c c' ∧
        Completes (c.perform (.read ⟨5⟩ ⟨1⟩ [0, 0])) fun step =>
          Completes (c'.perform (.read ⟨5⟩ ⟨1⟩ [0, 0])) fun step' =>
            step.value = step'.value := by
  have hrun : Completes (create threeBlocks eightBytes) fun created =>
      Completes (created.cache.perform (.read ⟨5⟩ ⟨0⟩ [0, 0, 0])) fun first =>
        Completes (first.cache.perform (.invalidate ⟨5⟩ .given)) fun second =>
          Completes (first.cache.perform (.invalidate ⟨5⟩ .reversed)) fun second' =>
            Completes (second.cache.perform (.read ⟨5⟩ ⟨0⟩ [0])) fun third =>
              Completes (second'.cache.perform (.read ⟨5⟩ ⟨0⟩ [0])) fun third' =>
                third.cache.slot? ⟨5⟩ ⟨0⟩ = some 1 ∧ third'.cache.slot? ⟨5⟩ ⟨0⟩ = some 0 ∧
                  third.cache.config = threeBlocks ∧ third'.cache.config = threeBlocks ∧
                  third.cache.stats = third'.cache.stats ∧
                  third.cache.residents = third'.cache.residents ∧
                  third.cache.source = third'.cache.source :=
    ⟨_, rfl, _, rfl, _, rfl, _, rfl, _, rfl, _, rfl, rfl, rfl, rfl, rfl, rfl, rfl, rfl⟩
  rcases hrun with ⟨created, hcreate, first, hfirst, second, hsecond, second', hsecond', third,
    hthird, third', hthird', hslot, hslot', hconfig, hconfig', hstats, hresidents, hsource⟩
  have hbegun := (Reachable.created hcreate).performed hfirst
  have hequivalent : Equivalent third.cache third'.cache := by
    constructor
    · rw [hconfig]
      exact (hbegun.performed hsecond).performed hthird
    · rw [hconfig']
      exact (hbegun.performed hsecond').performed hthird'
    · rw [hconfig, hconfig']
    · exact hstats
    · exact hresidents
  have halike : Alike third.cache.config.blockSize third.cache.source third'.cache.source := by
    rw [hsource]
    rfl
  rcases equivalent_indistinguishable hequivalent halike with ⟨hanswers, hoperations, -⟩
  refine ⟨third.cache, third'.cache, ?_, hequivalent, halike, hanswers, ?_⟩
  · rw [hslot, hslot']
    decide
  · apply (hoperations (.read ⟨5⟩ ⟨1⟩ [0, 0]) .given .given).mono
    intro step hstep
    apply hstep.mono
    intro step' hstep'
    exact hstep'.1

end Cache
end BlockCache

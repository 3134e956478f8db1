import BlockCache.Proofs.Cache.Moments
import BlockCache.Proofs.Cache.SegmentBalance

/-!
# Counters

The counter of a block says how often the block was hit in Middle or Old since it was last
admitted, as far as a word can count. Blocks in New have not been counted yet, and a block
that has left New comes back to it only by being admitted again.
-/

namespace BlockCache
namespace Cache

variable {σ : Type}

/-- How often the block was hit in Middle or Old since it was last admitted. -/
def references (log : List (Moment σ)) (key : BlockKey) : Nat :=
  (log.reverse.takeWhile fun m => !m.admits key).countP fun m => m.credits key

theorem references_concat (log : List (Moment σ)) (m : Moment σ) (key : BlockKey) :
    references (log ++ [m]) key =
      if m.admits key then 0 else references log key + if m.credits key then 1 else 0 := by
  unfold references
  rw [List.reverse_append, List.reverse_singleton, List.singleton_append, List.takeWhile_cons]
  cases m.admits key with
  | true => rfl
  | false => exact List.countP_cons

variable [BlockSource σ] {config : Config} {c c₁ : Cache σ} {s s' : Contents config}
  {log : List (Moment σ)} {m : Moment σ}

structure Counted (log : List (Moment σ)) (s : Contents config) : Prop where
  new : forall e, e ∈ s.zones.news -> e.2.counter = 0
  counter : forall e, e ∈ s.items ->
    e.2.counter.toNat = min (UInt64.size - 1) (references log e.2.key)

theorem Passes.counted (h : Coherent config m.before s) (h' : Coherent config m.after s')
    (hpasses : Passes m s s') (hlog : Counted log s) : Counted (log ++ [m]) s' where
  new e he := by
    rcases hpasses.mem_news h h' he with hstayed | ⟨-, hzero⟩
    · exact hlog.new e hstayed
    · exact hzero
  counter e he := by
    rw [references_concat]
    cases hpasses.origin h h' he with
    | kept hmem hfetches hcredits =>
        rw [Moment.admits_eq_false_of_fetches hfetches, hcredits]
        exact hlog.counter e hmem
    | credited hmem hcredit hfetches hcredits =>
        rename_i block
        have hbefore := hlog.counter _ hmem
        have hkey : e.2.key = block.key := (congrArg Block.key hcredit).trans block.key_credit
        rw [Moment.admits_eq_false_of_fetches hfetches, hcredits, hkey, hcredit,
          Block.toNat_counter_credit, hbefore]
        simp only [Bool.false_eq_true, if_false, if_true]
        omega
    | admitted hadmits hzero hanswer =>
        rw [hadmits, hzero]
        rfl

theorem Chronicle.counters (h : Chronicle c (.empty : Contents config) log c₁ s) :
    Counted log s := by
  induction h with
  | refl =>
      constructor
      · intro e he
        rw [CutSequence.zones_empty] at he
        cases he
      · intro e he
        cases he
  | passed _ hbefore hpasses hafter ih => exact hpasses.counted hbefore hafter ih
  | counted _ ih => exact ih

theorem Chronicle.not_new {key : BlockKey} (h : Chronicle c s log c₁ s')
    (hnew : forall e, e ∈ s.zones.news -> e.2.key ≠ key)
    (hadmits : forall m, m ∈ log -> m.admits key = false) :
    forall e, e ∈ s'.zones.news -> e.2.key ≠ key := by
  induction h with
  | refl => exact hnew
  | passed _ hbefore hpasses hafter ih =>
      intro e he hkey
      rcases hpasses.mem_news hbefore hafter he with hstayed | ⟨hadmitted, -⟩
      · exact ih (fun m hm => hadmits m (List.mem_append_left _ hm)) e hstayed hkey
      · rw [hkey, hadmits _ List.mem_concat_self] at hadmitted
        cases hadmitted
  | counted _ ih => exact ih hadmits

theorem Passes.counter?_eq {key : BlockKey} {n n' : UInt64} (h : Coherent config m.before s)
    (h' : Coherent config m.after s') (hpasses : Passes m s s')
    (hbefore : m.before.counter? key.fd key.index = some n)
    (hafter : m.after.counter? key.fd key.index = some n') :
    n' = if m.credits key then Word.addCapped n 1 else n := by
  rcases h.counter?_eq_some_iff.mp hbefore with ⟨slot, block, hmem, hkey, rfl⟩
  rcases h'.counter?_eq_some_iff.mp hafter with ⟨slot', block', hmem', rfl, rfl⟩
  cases hpasses.origin h h' hmem' with
  | kept hmem'' hfetches hcredits =>
      cases h.eq_of_keys_eq hmem'' hmem hkey.symm
      rw [hcredits]
      rfl
  | credited hmem'' hcredit hfetches hcredits =>
      cases h.eq_of_keys_eq hmem'' hmem (hkey.trans (congrArg Block.key hcredit)).symm
      rw [hcredits]
      exact congrArg Block.counter hcredit
  | admitted hadmits hzero hanswer =>
      have hresident : m.before.isResident block'.key.fd block'.key.index = true :=
        h.isResident_iff.mpr ⟨slot, block, hmem, hkey⟩
      simp [Moment.admits, Moment.fetches, hresident] at hadmits

/--
Blocks in New have no references, and a block that is not in New stays out of it until it
is admitted. The references of a block are its hits in Middle and Old since it was last
admitted, up to the largest word, and nothing else that happens to a resident block changes
them.
-/
theorem counters_of_reached (h : ReachedBy config log c) :
    (forall key : BlockKey, c.segment? key.fd key.index = some .new ->
        c.counter? key.fd key.index = some 0) ∧
      (forall past m later (key : BlockKey), log = past ++ m :: later ->
        m.before.segment? key.fd key.index ≠ some .new ->
        (forall m', m' ∈ m :: later -> m'.admits key = false) ->
          c.segment? key.fd key.index ≠ some .new) ∧
      (forall (key : BlockKey) n, c.counter? key.fd key.index = some n ->
        n.toNat = min (UInt64.size - 1) (references log key)) ∧
      forall m (key : BlockKey) n n', m ∈ log -> m.before.counter? key.fd key.index = some n ->
        m.after.counter? key.fd key.index = some n' ->
          n' = if m.credits key then Word.addCapped n 1 else n := by
  rcases h.chronicle with ⟨-, created, s, hchronicle, hs⟩
  have hcounted := hchronicle.counters
  refine ⟨?_, ?_, ?_, ?_⟩
  · intro key hnew
    rcases hs.segment?_eq_some_iff.mp hnew with ⟨slot, block, hmem, hkey⟩
    exact hs.counter?_eq_some_iff.mpr
      ⟨slot, block, List.mem_of_mem_take hmem, hkey, hcounted.new _ hmem⟩
  · intro past m later key hlog hbefore hadmits
    rw [hlog] at hchronicle
    rcases hchronicle.split with ⟨c₁, s₁, -, hlater⟩
    rcases hlater.of_cons with ⟨-, -, hs₁, -, -, -⟩
    rw [hs.segment?_ne_new_iff]
    exact hlater.not_new (hs₁.segment?_ne_new_iff.mp hbefore) hadmits
  · intro key n hn
    rcases hs.counter?_eq_some_iff.mp hn with ⟨slot, block, hmem, rfl, rfl⟩
    exact hcounted.counter _ hmem
  · intro m key n n' hm hn hn'
    rcases hchronicle.of_mem hm with ⟨t, t', hbefore, hpasses, hafter⟩
    exact hpasses.counter?_eq hbefore hafter hn hn'

theorem counters_of_reached_two_references :
    exists (log : List (Moment MemoryFiles)) (c : Cache MemoryFiles),
      ReachedBy threeBlocks log c ∧ c.counter? ⟨5⟩ ⟨0⟩ = some 2 ∧
        references log ⟨⟨5⟩, ⟨0⟩⟩ = 2 := by
  have hrun : Completes (create threeBlocks eightBytes) fun created =>
      Completes (created.cache.perform (.read ⟨5⟩ ⟨0⟩ [0])) fun first =>
        Completes (first.cache.perform (.read ⟨5⟩ ⟨0⟩ [0, 0, 0])) fun second =>
          Completes (second.cache.perform (.read ⟨5⟩ ⟨1⟩ [0, 0])) fun third =>
            Completes (third.cache.perform (.read ⟨5⟩ ⟨1⟩ [0])) fun last =>
              last.cache.counter? ⟨5⟩ ⟨0⟩ = some 2 :=
    ⟨_, rfl, _, rfl, _, rfl, _, rfl, _, rfl, rfl⟩
  rcases hrun with ⟨created, hcreate, first, hfirst, second, hsecond, third, hthird,
    last, hlast, hcounter⟩
  have htrail := (((Trail.refl.performed hfirst).performed hsecond).performed hthird).performed
    hlast
  have hreached := ReachedBy.created hcreate htrail
  have hreferences := (counters_of_reached hreached).2.2.1 ⟨⟨5⟩, ⟨0⟩⟩ 2 hcounter
  refine ⟨_, _, hreached, hcounter, ?_⟩
  have hsize : (2 : UInt64).toNat = 2 ∧ 2 < UInt64.size - 1 := by decide
  omega

end Cache
end BlockCache

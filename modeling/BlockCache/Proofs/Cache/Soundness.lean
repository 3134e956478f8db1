import BlockCache.Proofs.Cache.Recording
import BlockCache.Proofs.RecencyList.Check
import BlockCache.Cache.Check
import BlockCache.Source.Memory

/-!
# Soundness

After every operation, whether it has succeeded or failed, the recency list and the index
name the same blocks, the sizes are kept, and the check finds nothing. So a read has no
reason of its own to report a broken cache: it does so only if the source has said so.
-/

namespace BlockCache
namespace Cache

variable {σ : Type} {config : Config} {c : Cache σ} {s : Contents config}

theorem Coherent.entries_completes (h : Coherent config c s) :
    Completes c.list.entries fun entries =>
      entries.map (fun e => (e.1, e.2.block)) = s.items := by
  refine ⟨_, h.represents.arranged.entries_eq, ?_⟩
  exact (RecencyList.map_entriesOf (fun _ _ _ => rfl) none none _).trans
    (s.zones.map_residents.trans s.items_zones)

theorem Coherent.pairs_perm (h : Coherent config c s) :
    (s.items.map fun e => (e.2.key, e.1)).Perm c.index.pairs := by
  have hnodup : (s.items.map fun e => (e.2.key, e.1)).Nodup := by
    apply List.Nodup.of_map Prod.snd
    rw [List.map_map]
    exact s.nodup
  rw [List.perm_ext_iff_of_nodup hnodup (Index.nodup_pairs _)]
  rintro ⟨key, slot⟩
  rw [Index.mem_pairs_iff, h.find?_eq_some_iff, List.mem_map]
  constructor
  · rintro ⟨⟨slot', block⟩, hmem, heq⟩
    cases heq
    exact ⟨block, hmem, rfl⟩
  · rintro ⟨block, hmem, rfl⟩
    exact ⟨(slot, block), hmem, rfl⟩

theorem Coherent.fileDefect?_eq_none (h : Coherent config c s) {fd : FileDescriptor}
    {blocks : Index.FileBlocks} (hfile : c.index.files[fd]? = some blocks) :
    fileDefect? c.list fd blocks.toList = none := by
  have hnonempty : ¬ blocks.toList.isEmpty = true := by
    rw [Std.TreeMap.isEmpty_toList, h.tight fd blocks hfile]
    exact Bool.false_ne_true
  rw [fileDefect?, if_neg hnonempty, List.findSome?_eq_none_iff]
  rintro ⟨number, slot⟩ hentry
  have hfind : c.index.find? ⟨fd, number⟩ = some slot := by
    simp only [Index.find?, hfile]
    exact Std.TreeMap.mem_toList_iff_getElem?_eq_some.mp hentry
  rcases h.find?_eq_some_iff.mp hfind with ⟨block, hmem, hkey⟩
  simp only [entryDefect?, h.block?_eq hmem, if_pos hkey]

theorem Coherent.defect?_eq_none (h : Coherent config c s) : c.defect? = none := by
  have htotal : c.list.sizes.total = s.items.length := h.length_eq
  have hcapacity : ¬ c.capacity < c.list.sizes.total := by
    rw [htotal, h.capacity_eq]
    exact Nat.not_lt.mpr h.fits.length_le
  have hbounds : ¬ (c.config.maxNew.toNat < c.list.sizes.new ∨
      c.config.maxOld.toNat < c.list.sizes.old) := by
    rw [h.config_eq, not_or]
    exact ⟨Nat.not_lt.mpr h.represents.new_le, Nat.not_lt.mpr h.represents.old_le⟩
  have hfiles : (c.indexed.findSome? fun e => fileDefect? c.list e.1 e.2) = none := by
    rw [List.findSome?_eq_none_iff]
    intro e he
    rcases List.mem_map.mp he with ⟨file, hfile, rfl⟩
    exact h.fileDefect?_eq_none (Std.TreeMap.mem_toList_iff_getElem?_eq_some.mp hfile)
  have hindexed : (c.indexed.flatMap Prod.snd).length = c.list.sizes.total := by
    rw [htotal, indexed, List.flatMap_map]
    exact (Index.length_pairs _).symm.trans
      (h.pairs_perm.length_eq.symm.trans (List.length_map _))
  simp only [defect?, h.represents.defect?_eq_none, if_neg hcapacity, if_neg hbounds, hfiles,
    if_pos hindexed]

/--
What holds of a cache between any two operations. The entries are the blocks of the recency
list in order, the pairs are all that the index holds.
-/
structure Sound (config : Config) (c : Cache σ) : Prop where
  length_le : c.length <= config.capacity.toNat
  new_le : c.segmentSizes.new <= config.maxNew.toNat
  old_le : c.segmentSizes.old <= config.maxOld.toNat
  agree : Completes c.list.entries fun entries =>
    entries.length = c.length ∧
      (entries.map fun e => (e.2.block.key, e.1)).Perm c.index.pairs ∧
      (entries.map fun e => e.2.block.key).Nodup ∧
      forall e, e ∈ entries ->
        c.index.find? e.2.block.key = some e.1 ∧ c.list.block? e.1 = some e.2.block ∧
          1 <= e.2.block.data.length ∧ e.2.block.data.length <= config.blockSize.toNat
  tight : c.index.Tight
  check : c.check = .ok ()

theorem Coherent.sound (h : Coherent config c s) : Sound config c where
  length_le := h.length_eq ▸ h.fits.length_le
  new_le := h.represents.new_le
  old_le := h.represents.old_le
  agree := by
    refine h.entries_completes.mono ?_
    intro entries hentries
    have hpairs : entries.map (fun e => (e.2.block.key, e.1)) =
        s.items.map fun e => (e.2.key, e.1) := by
      rw [<- hentries, List.map_map]
      rfl
    have hkeys : entries.map (fun e => e.2.block.key) = s.items.map fun e => e.2.key := by
      rw [<- hentries, List.map_map]
      rfl
    refine ⟨?_, hpairs ▸ h.pairs_perm, hkeys ▸ h.nodup_keys, ?_⟩
    · rw [h.length_eq, <- hentries, List.length_map]
    · intro e he
      have hmem : (e.1, e.2.block) ∈ s.items := by
        rw [<- hentries]
        exact List.mem_map_of_mem he
      have hstorable := h.storable _ (CutSequence.mem_holdings hmem)
      exact ⟨h.find?_eq_some_iff.mpr ⟨e.2.block, hmem, rfl⟩, h.block?_eq hmem,
        List.length_pos_iff.mpr hstorable.1, hstorable.2⟩
  tight := h.tight
  check := by
    rw [check, h.defect?_eq_none]

variable [BlockSource σ]

/--
Every run of operations ends with a sound cache, whatever the source does. A further read
reports a broken cache only if a fetch made by this very read has failed with that report.
-/
theorem run_sound (hvalid : config.Valid) (source : σ) (operations : List Operation) :
    Completes (create config source) fun created =>
      Completes (created.cache.run operations) fun ran =>
        Sound config ran.cache ∧
          forall fd offset buf, Completes (ran.cache.read fd offset buf) fun step =>
            Completes (ran.cache.recorded.read fd offset buf) fun twin =>
              twin.unrecorded = step ∧
                forall detail, step.value.result = .error (.invariant detail) ->
                  exists key, ⟨key, .error (.invariant detail)⟩ ∈ twin.cache.source.calls := by
  apply create_run_completes hvalid source operations
  intro _ ran s _ _ _ hran
  refine ⟨hran.sound, ?_⟩
  intro fd offset buf
  rcases read_twin_completes hvalid hran fd offset buf with ⟨twin, hrecorded, hread, s', hdone, -⟩
  refine ⟨twin.unrecorded, hread, twin, hrecorded, rfl, ?_⟩
  intro detail hresult
  rcases hdone.exists_cause hresult with ⟨-, hrange⟩ | ⟨c₁, s₁, key, -, hcall, hcause⟩
  · cases hrange
  · cases hcause with
    | failed hanswer => exact ⟨key, hanswer ▸ hcall⟩

def brokenFiles : MemoryFiles :=
  let files := MemoryFiles.put ⟨∅, []⟩ ⟨5⟩ (.stored [1, 2, 3])
  (files.put ⟨6⟩ (.stored [4, 5, 6])).addFault
    ⟨⟨5⟩, none, none, .fail (.invariant "of another cache")⟩

theorem run_sound_broken_files :
    threeBlocks.Valid ∧
      Completes (create threeBlocks brokenFiles) fun created =>
        Completes (created.cache.run [.read ⟨6⟩ ⟨1⟩ [0, 0], .read ⟨5⟩ ⟨0⟩ [0]]) fun ran =>
          Sound threeBlocks ran.cache ∧
            Completes (ran.cache.recorded.read ⟨5⟩ ⟨0⟩ [0]) fun twin =>
              exists key,
                ⟨key, .error (.invariant "of another cache")⟩ ∈ twin.cache.source.calls := by
  refine ⟨threeBlocks_valid, ?_⟩
  have hsound := run_sound threeBlocks_valid brokenFiles
    [.read ⟨6⟩ ⟨1⟩ [0, 0], .read ⟨5⟩ ⟨0⟩ [0]]
  have hreports : Completes (create threeBlocks brokenFiles) fun created =>
      Completes (created.cache.run [.read ⟨6⟩ ⟨1⟩ [0, 0], .read ⟨5⟩ ⟨0⟩ [0]]) fun ran =>
        Completes (ran.cache.read ⟨5⟩ ⟨0⟩ [0]) fun step =>
          step.value.result = .error (.invariant "of another cache") :=
    ⟨_, rfl, _, rfl, _, rfl, rfl⟩
  rcases hreports with ⟨created, hcreate, ran, hrun, step, hread, hresult⟩
  rcases (hsound.of_eq hcreate).of_eq hrun with ⟨hran, hreads⟩
  refine ⟨created, hcreate, ran, hrun, hran, ?_⟩
  refine ((hreads ⟨5⟩ ⟨0⟩ [0]).of_eq hread).mono ?_
  intro twin htwin
  exact htwin.2 _ hresult

theorem read_of_broken_files :
    Completes (create threeBlocks brokenFiles) fun created =>
      Completes (created.cache.read ⟨5⟩ ⟨0⟩ [0]) fun step =>
        step.value.result = .error (.invariant "of another cache") := by
  refine ⟨_, rfl, _, rfl, ?_⟩
  rfl

end Cache
end BlockCache

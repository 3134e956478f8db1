import BlockCache.Proofs.Cache.ListWork
import BlockCache.Proofs.Cache.SegmentBalance
import BlockCache.Proofs.RecencyList.Stages

/-!
# Nothing ever stops

No operation of a list stops, and none of a cache, in front of whatever source. Each is
made of stages that are taken when they are due, and of no others. Wherever such stages
lead, the links and boundaries name blocks that are there, walks end with the last block,
and the next stage that is due can be taken.
-/

namespace BlockCache

/--
The bytes that a piece takes of `data` are there, and there is room for them in a buffer of
`len` bytes.
-/
def Piece.Within (piece : Piece) (len : Nat) (data : Bytes) : Prop :=
  0 < piece.available data -> piece.dest + piece.available data <= len ∧
    piece.start + piece.available data <= data.length

theorem Piece.within_of_le {piece : Piece} {len : Nat} (h : piece.dest + piece.len <= len)
    (data : Bytes) : piece.Within len data := by
  intro hpos
  have hlen : piece.available data <= piece.len := Nat.min_le_left _ _
  have hdata : piece.available data <= data.length - piece.start := Nat.min_le_right _ _
  omega

namespace RecencyList

theorem Worked.proceeds {capacity : Nat} {l l' : RecencyList} (h : Worked capacity l l')
    (hstart : exists z, Threaded l none z) : exists stages, Proceeds l none stages l' none := by
  induction h with
  | refl => exact ⟨[], .refl⟩
  | performed operation _ hperform _ ih =>
      rcases ih with ⟨stages, hpast⟩
      have hlast := (perform_proceeds (hpast.threaded hstart) operation).of_eq hperform
      exact ⟨_, hpast.trans hlast⟩

end RecencyList

namespace Cache

open RecencyList (Proceeds Rested Intact Due stageOf)

variable {σ : Type} {config : Config} {c : Cache σ} {s : Contents config}

theorem Coherent.within_of_mem_piecesOf (hvalid : config.Valid) (h : Coherent config c s)
    {offset : ByteOffset} {len : Nat} {piece : Piece} (hpiece : piece ∈ c.piecesOf offset len)
    (data : Bytes) : piece.Within len data := by
  rw [piecesOf, h.config_eq] at hpiece
  rcases Span.ofRange_cases hvalid.blockSize_pos offset len with
    ⟨-, hrange⟩ | ⟨-, -, span, hrange, hoffset, hstop, hsize⟩ | ⟨-, -, hrange⟩
  · rw [hrange] at hpiece
    cases hpiece
  · have htiled := span.tiled_pieces
    rw [hoffset, hstop, hsize] at htiled
    rw [hrange] at hpiece
    exact Piece.within_of_le (htiled.inside_length hpiece) data
  · rw [hrange] at hpiece
    cases hpiece

/--
All operations complete, on a list under any bounds and with any slots, and on a cache in
front of any source. They are made of stages, each taken when it is due, until no boundary is
due to move; a cache copies only bytes that are there, to places that are there.

Wherever due stages lead, the list is intact and every stage that is due can be taken. An
operation takes the stages it begins with, and then one for each move that it reports.
-/
theorem operations_never_stop :
    (forall maxNew maxOld operations,
      Completes ((RecencyList.empty maxNew maxOld).run operations) fun ran =>
        (exists stages, Proceeds (.empty maxNew maxOld) none stages ran.list none) ∧
          Rested ran.list) ∧
    (forall (σ : Type) [BlockSource σ] (config : Config) (source : σ) operations, config.Valid ->
      Completes (create config source) fun created =>
        Completes (created.cache.run operations) fun ran =>
          (exists stages, Proceeds (.empty config.maxNew.toNat config.maxOld.toNat) none stages
            ran.cache.list none) ∧
            Rested ran.cache.list ∧
            forall offset len piece data, piece ∈ ran.cache.piecesOf offset len ->
              piece.Within len data) ∧
    forall maxNew maxOld stages l pending, Proceeds (.empty maxNew maxOld) none stages l pending ->
      Completes l.entries (Intact l pending) ∧
        (forall stage, Due l pending stage -> exists reached, l.advance stage = .ok reached) ∧
        (pending = none -> forall operation, Completes (l.perform operation) fun o =>
          Proceeds l none (l.opening operation ++ o.moves.map stageOf) o.list none) := by
  refine ⟨?_, ?_, ?_⟩
  · intro maxNew maxOld operations
    have hempty := RecencyList.represents_empty maxNew maxOld
    rcases RecencyList.run_proceeds ⟨_, hempty.threaded⟩ operations with ⟨ran, hrun, hproceeds⟩
    rcases (hempty.run_completes operations).of_eq hrun with ⟨s, -, h⟩
    exact ⟨ran, hrun, hproceeds, h.rested⟩
  · intro σ _ config source operations hvalid
    rcases create_completes hvalid source with ⟨created, hcreate, -, hcreated⟩
    rcases run_completes hvalid hcreated operations with ⟨ran, hrun, s, -, hran⟩
    have hworked := run_worked hvalid hcreated hrun
    rw [list_of_create hcreate] at hworked
    have hempty := RecencyList.represents_empty config.maxNew.toNat config.maxOld.toNat
    refine ⟨created, hcreate, ran, hrun, hworked.proceeds ⟨_, hempty.threaded⟩,
      hran.represents.rested, ?_⟩
    intro offset len piece data hpiece
    exact hran.within_of_mem_piecesOf hvalid hpiece data
  · intro maxNew maxOld stages l pending hproceeds
    have hempty := RecencyList.threaded_empty maxNew maxOld
    rcases hproceeds.threaded ⟨_, hempty⟩ with ⟨z, hz⟩
    refine ⟨hz.intact, fun stage hdue => ?_, fun hnone operation => ?_⟩
    · rcases hz.advance hdue with ⟨reached, hreached, -⟩
      exact ⟨reached, hreached⟩
    · subst hnone
      exact RecencyList.perform_proceeds ⟨z, hz⟩ operation

theorem operations_never_stop_between_stages :
    threeBlocks.Valid ∧
      (Completes (create threeBlocks eightBytes) fun created =>
        Completes (created.cache.run [.read ⟨5⟩ ⟨1⟩ [0, 0, 0, 0, 0, 0, 0]]) fun ran =>
          ran.cache.stats.evictions = 1 ∧ Rested ran.cache.list) ∧
      exists stages l, Proceeds (.empty 0 1) none stages l none ∧ Due l none .shrinkNew ∧
        Completes l.entries (Intact l none) ∧
        (exists reached, l.advance .shrinkNew = .ok reached) ∧
        Completes (l.perform (.remove 0)) fun o =>
          Proceeds l none ([.detach 0, .release 0] ++ o.moves.map stageOf) o.list none := by
  refine ⟨threeBlocks_valid, ?_, ?_⟩
  · have hrun : Completes (create threeBlocks eightBytes) fun created =>
        Completes (created.cache.run [.read ⟨5⟩ ⟨1⟩ [0, 0, 0, 0, 0, 0, 0]]) fun ran =>
          ran.cache.stats.evictions = 1 :=
      ⟨_, rfl, _, rfl, rfl⟩
    rcases hrun with ⟨created, hcreate, ran, hran, hevictions⟩
    have hcompletes := operations_never_stop.2.1 _ threeBlocks eightBytes
      [.read ⟨5⟩ ⟨1⟩ [0, 0, 0, 0, 0, 0, 0]] threeBlocks_valid
    have hrested := ((hcompletes.of_eq hcreate).of_eq hran).2.1
    exact ⟨created, hcreate, ran, hran, hevictions, hrested⟩
  · let block : Block := ⟨⟨5⟩, ⟨0⟩, 0, [1]⟩
    have hallocated : Proceeds (.empty 0 1) none [.allocate block]
        ((RecencyList.empty 0 1).allocate block).2 (some 0) :=
      .advanced (.allocate block) .refl rfl rfl
    have hentered : Completes (((RecencyList.empty 0 1).allocate block).2.enterNew 0) fun l =>
        l.sizes.new = 1 ∧ l.maxNew = 0 ∧ (l.get? 0).isSome :=
      ⟨_, rfl, rfl, rfl, rfl⟩
    rcases hentered with ⟨l, hl, hnew, hmaxNew, hslot⟩
    have hadvance : ((RecencyList.empty 0 1).allocate block).2.advance (.enterNew 0) =
        .ok (l, none) := by
      rw [RecencyList.advance, hl]
      rfl
    have hproceeds := hallocated.advanced (.enterNew 0) rfl hadvance
    have hdue : Due l none .shrinkNew := by
      refine ⟨rfl, ?_⟩
      rw [hnew, hmaxNew]
      decide
    rcases operations_never_stop.2.2 0 1 _ l none hproceeds with ⟨hintact, hnext, hperform⟩
    have hremove := hperform rfl (.remove 0)
    rw [RecencyList.opening, if_pos hslot] at hremove
    exact ⟨_, l, hproceeds, hdue, hintact, hnext .shrinkNew hdue, hremove⟩

end Cache
end BlockCache

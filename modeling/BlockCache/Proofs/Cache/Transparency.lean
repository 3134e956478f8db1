import BlockCache.Proofs.Cache.Recording

/-!
# Transparency

Let the files have fixed contents, and let the source answer nothing but their bytes,
though it may fail whenever it likes. Then every block in the cache has the bytes of its
file, whatever was read, evicted or dropped before, and a read copies the bytes that the
file has in its range.
-/

namespace BlockCache

def blockBytes (contents : Bytes) (size k : Nat) : Bytes :=
  (contents.drop (k * size)).take size

theorem length_blockBytes_le (contents : Bytes) (size k : Nat) :
    (blockBytes contents size k).length <= size :=
  List.length_take_le _ _

theorem length_le_of_blockBytes_eq_nil {contents : Bytes} {size k : Nat} (hsize : 0 < size)
    (h : blockBytes contents size k = []) : contents.length <= k * size := by
  rcases List.take_eq_nil_iff.mp h with hzero | hnil
  · omega
  · exact List.drop_eq_nil_iff.mp hnil

theorem Piece.wanted_blockBytes {piece : Piece} {size : Nat}
    (hinside : piece.start + piece.len <= size) (contents : Bytes) (k : Nat) :
    piece.wanted (blockBytes contents size k) =
      (contents.drop (k * size + piece.start)).take piece.len := by
  have hlen : min piece.len (size - piece.start) = piece.len := by
    omega
  rw [wanted, blockBytes, List.drop_take, List.take_take, List.drop_drop, hlen]

theorem Tiled.wanted_eq {size origin stop pos : Nat} {piece : Piece} {rest : List Piece}
    (hsize : 0 < size) (h : Tiled size origin stop pos (piece :: rest)) (contents : Bytes) :
    piece.wanted (blockBytes contents size piece.index.number.toNat) =
      (contents.drop pos).take piece.len := by
  rcases h with ⟨-, hindex, hstart, hlen, -, -⟩
  have hmod := Nat.mod_lt pos hsize
  rw [Piece.wanted_blockBytes (by omega), hindex, hstart, Nat.div_add_mod']

theorem Tiled.available_eq {size origin stop pos : Nat} {piece : Piece} {rest : List Piece}
    (hsize : 0 < size) (h : Tiled size origin stop pos (piece :: rest)) (contents : Bytes) :
    piece.available (blockBytes contents size piece.index.number.toNat) =
      min piece.len (contents.length - pos) := by
  rw [<- Piece.length_wanted, h.wanted_eq hsize, List.length_take, List.length_drop]

/-!
# Faithful sources
-/

section Sources

variable {σ : Type} [BlockSource σ]

/-- What a source becomes by fetches of blocks of one size. -/
inductive Later (blockSize : UInt32) (source : σ) : σ -> Prop where
  | refl : Later blockSize source source
  | fetched {later : σ} (key : BlockKey) :
      Later blockSize source later ->
      Later blockSize source (BlockSource.fetch later key.fd key.index blockSize).source

/-- Now and later, a fetch answers the bytes of the block or fails. -/
def Faithful (files : FileDescriptor -> Bytes) (blockSize : UInt32) (source : σ) : Prop :=
  forall later, Later blockSize source later -> forall (key : BlockKey) (data : Bytes),
    (BlockSource.fetch later key.fd key.index blockSize).answer = .ok data ->
      data = blockBytes (files key.fd) blockSize.toNat key.index.number.toNat

variable {blockSize : UInt32} {files : FileDescriptor -> Bytes} {source : σ}

theorem Later.trans {source₁ source₂ : σ} (h : Later blockSize source source₁)
    (h' : Later blockSize source₁ source₂) : Later blockSize source source₂ := by
  induction h' with
  | refl => exact h
  | fetched key _ ih => exact .fetched key ih

theorem Faithful.fetched (h : Faithful files blockSize source) (key : BlockKey) :
    Faithful files blockSize (BlockSource.fetch source key.fd key.index blockSize).source :=
  fun later hlater => h later ((Later.fetched key .refl).trans hlater)

theorem Later.unrecorded {recorded later : Recorded σ} (h : Later blockSize recorded later) :
    Later blockSize recorded.source later.source := by
  induction h with
  | refl => exact .refl
  | fetched key _ ih => exact .fetched key ih

theorem Faithful.recorded (h : Faithful files blockSize source) (calls : List Call) :
    Faithful files blockSize (Recorded.mk source calls) :=
  fun later hlater => h later.source hlater.unrecorded

end Sources

/-!
# Truthful caches
-/

namespace Cache

variable {σ : Type} {config : Config} {c : Cache σ} {s s' : Contents config}
  {files : FileDescriptor -> Bytes} {key : BlockKey}

variable [BlockSource σ]

/-- The resident blocks have the bytes of their files, as every block fetched later will. -/
structure Truthful (files : FileDescriptor -> Bytes) (c : Cache σ) (s : Contents config) :
    Prop where
  config_eq : c.config = config
  source : Faithful files config.blockSize c.source
  blocks : forall held, held ∈ s.holdings -> held.data =
    blockBytes (files held.key.fd) config.blockSize.toNat held.key.index.number.toNat

theorem Truthful.answer_eq (h : Truthful files c s) {data : Bytes}
    (hanswer : (c.supply key).answer = .ok data) :
    data = blockBytes (files key.fd) config.blockSize.toNat key.index.number.toNat := by
  rw [supply, h.config_eq] at hanswer
  exact h.source c.source .refl key data hanswer

theorem Truthful.block_eq (h : Truthful files c s) {slot : Slot} {block : Block}
    (hmem : (slot, block) ∈ s.items) (hkey : block.key = key) :
    block.data = blockBytes (files key.fd) config.blockSize.toNat key.index.number.toNat := by
  rw [<- hkey]
  exact h.blocks _ (CutSequence.mem_holdings hmem)

theorem Truthful.asked (h : Truthful files c s) (key : BlockKey) :
    Truthful files (c.asked key) s where
  config_eq := h.config_eq
  source := by
    rw [Cache.asked, supply, h.config_eq]
    exact h.source.fetched key
  blocks := h.blocks

theorem Accessed.truthful {step : Step σ (Except Error (Option Slot))}
    (haccessed : Accessed c s key step s') (h : Truthful files c s) :
    Truthful files step.cache s' := by
  have hasked := h.asked key
  cases haccessed with
  | hit hmem hkey =>
      rename_i slot block list moves
      refine ⟨h.config_eq, h.source, ?_⟩
      intro held hheld
      exact h.blocks held ((CutSequence.holdings_touch_perm s slot).mem_iff.mp hheld)
  | failed habsent hanswer => exact ⟨hasked.config_eq, hasked.source, hasked.blocks⟩
  | oversized habsent hanswer hsize => exact ⟨hasked.config_eq, hasked.source, hasked.blocks⟩
  | pastEnd habsent hanswer => exact hasked
  | admitted habsent hanswer hstorable hroom fresh =>
      rcases hroom.kept with ⟨hconfig, hsource, hblocks⟩
      refine ⟨hconfig.trans hasked.config_eq, hsource ▸ hasked.source, ?_⟩
      intro held hheld
      rcases List.mem_cons.mp hheld with rfl | hheld
      · exact h.answer_eq hanswer
      · exact h.blocks held (hblocks held hheld)

theorem Accessed.answer_of_none {step : Step σ (Except Error (Option Slot))}
    (h : Accessed c s key step s') (hvalue : step.value = .ok none) :
    (c.supply key).answer = .ok [] := by
  cases h with
  | pastEnd habsent hanswer => exact hanswer
  | hit | failed | oversized | admitted => cases hvalue

theorem Evolves.truthful {c' : Cache σ} (hevolves : Evolves c s c' s')
    (h : Truthful files c s) : Truthful files c' s' := by
  induction hevolves with
  | refl => exact h
  | accessed _ haccessed ih => exact haccessed.truthful ih
  | dropped slots _ ih =>
      refine ⟨ih.config_eq, ih.source, ?_⟩
      intro held hheld
      exact ih.blocks held (CutSequence.mem_holdings_removeAll.mp hheld).1
  | cleared _ ih =>
      refine ⟨ih.config_eq, ih.source, ?_⟩
      intro held hheld
      cases hheld
  | counted _ ih => exact ⟨ih.config_eq, ih.source, ih.blocks⟩

/-!
# Later sources
-/

theorem Accessed.later {step : Step σ (Except Error (Option Slot))}
    (h : Accessed c s key step s') : Later c.config.blockSize c.source step.cache.source := by
  have hasked : Later c.config.blockSize c.source (c.supply key).source := .fetched key .refl
  cases h with
  | hit hmem hkey => exact .refl
  | failed | oversized | pastEnd => exact hasked
  | admitted habsent hanswer hstorable hroom fresh =>
      dsimp only
      rw [hroom.kept.2.1]
      exact hasked

theorem Evolves.later {c' : Cache σ} (h : Evolves c s c' s') :
    c'.config = c.config ∧ Later c.config.blockSize c.source c'.source := by
  induction h with
  | refl => exact ⟨rfl, .refl⟩
  | accessed _ haccessed ih =>
      have hlater := haccessed.later
      rw [ih.1] at hlater
      exact ⟨haccessed.config_eq.trans ih.1, ih.2.trans hlater⟩
  | dropped _ _ ih | cleared _ ih | counted _ ih => exact ih

/-!
# What a read copies
-/

theorem Truthful.piece_eq (h : Truthful files c s) (hsize : 0 < config.blockSize.toNat)
    {fd : FileDescriptor} {piece : Piece} {rest : List Piece} {origin stop pos : Nat}
    (htiled : Tiled config.blockSize.toNat origin stop pos (piece :: rest)) {slot : Slot}
    {block : Block} (hmem : (slot, block) ∈ s.items) (hkey : block.key = ⟨fd, piece.index⟩) :
    piece.wanted block.data = ((files fd).drop pos).take piece.len ∧
      piece.available block.data = min piece.len ((files fd).length - pos) := by
  rw [h.block_eq hmem hkey]
  exact ⟨htiled.wanted_eq hsize _, htiled.available_eq hsize _⟩

/-- From position `pos` on, the bytes of the file go where they belong in the buffer. -/
theorem ReadPieces.copied {fd : FileDescriptor} {pieces : List Piece} {buf : Bytes}
    {step : Step σ (Reading (Except Error Nat))} {origin stop pos n : Nat}
    (hread : ReadPieces fd pieces c s buf step s') (h : Truthful files c s)
    (hsize : 0 < config.blockSize.toNat)
    (htiled : Tiled config.blockSize.toNat origin stop pos pieces) (horigin : origin <= pos)
    (hbuf : stop - origin <= buf.length) (hresult : step.value.result = .ok n) :
    n = min (stop - pos) ((files fd).length - pos) ∧
      step.value.buf = patch buf (pos - origin) (((files fd).drop pos).take n) := by
  -- The pieces before `pos` are in the buffer already, so each piece only adds its own bytes.
  induction hread generalizing pos n with
  | done =>
      cases hresult
      have hpos : pos = stop := htiled
      rw [List.take_zero, patch_nil]
      exact ⟨by omega, rfl⟩
  | failed haccessed hvalue => cases hresult
  | pastEnd haccessed hvalue =>
      rename_i piece rest c s s' buf accessed
      cases hresult
      have hanswer := haccessed.answer_of_none hvalue
      have hend := length_le_of_blockBytes_eq_nil hsize (h.answer_eq hanswer).symm
      rcases htiled with ⟨-, hindex, -, -, -, -⟩
      have hpos : (files fd).length <= pos := by
        rw [hindex] at hend
        exact Nat.le_trans hend (Nat.div_mul_le_self _ _)
      rw [List.take_zero, patch_nil]
      exact ⟨by omega, rfl⟩
  | short haccessed hvalue hmem hkey hshort =>
      rename_i piece rest c s s' buf accessed slot block
      rcases (haccessed.truthful h).piece_eq hsize htiled hmem hkey with ⟨hwanted, havailable⟩
      rcases htiled with ⟨-, -, -, hlen, hdest, -⟩
      have hend : piece.available block.data = (files fd).length - pos := by
        omega
      cases hresult
      refine ⟨by omega, ?_⟩
      have hall : ((files fd).drop pos).length <= piece.available block.data :=
        Nat.le_of_eq (List.length_drop.trans hend.symm)
      rw [hwanted, hdest, List.take_of_length_le hall,
        List.take_of_length_le (Nat.le_trans hall (Nat.le_of_lt hshort))]
  | full haccessed hvalue hmem hkey hall hmore ih =>
      rename_i piece rest c s s' s'' buf accessed slot block more
      rcases (haccessed.truthful h).piece_eq hsize htiled hmem hkey with ⟨hwanted, havailable⟩
      have hlength : (piece.wanted block.data).length = piece.len := by
        rw [Piece.length_wanted, hall]
      have hinside : piece.dest + (piece.wanted block.data).length <= buf.length := by
        rw [hlength]
        exact Nat.le_trans (htiled.inside horigin List.mem_cons_self) hbuf
      rcases htiled with ⟨-, -, -, hlen, hdest, hrest⟩
      rcases exists_of_map_eq_ok hresult with ⟨m, hmoreResult, rfl⟩
      rcases ih (haccessed.truthful h) hrest (Nat.le_add_right_of_le horigin)
        (by rw [length_patch hinside]; exact hbuf) hmoreResult with ⟨hm, hbytes⟩
      have hstop : piece.len <= stop - pos := hlen ▸ Nat.min_le_right _ _
      have hfile : piece.len <= (files fd).length - pos := by
        rw [<- hall, havailable]
        exact Nat.min_le_right _ _
      have hnext : pos + piece.len - origin = piece.dest + (piece.wanted block.data).length := by
        rw [hlength, hdest, Nat.sub_add_comm horigin]
      constructor
      · rw [hm, <- Nat.add_min_add_left, <- Nat.sub_sub, <- Nat.sub_sub,
          Nat.add_sub_cancel' hstop, Nat.add_sub_cancel' hfile]
      · rw [hbytes, hnext, patch_patch hinside, hwanted, hdest, List.take_add, List.drop_drop]

theorem ReadDone.copied {fd : FileDescriptor} {offset : ByteOffset} {buf : Bytes}
    {step : Step σ (Reading (Except Error Nat))} {n : Nat}
    (hread : ReadDone c s fd offset buf step s') (h : Truthful files c s)
    (hsize : 0 < config.blockSize.toNat) (hresult : step.value.result = .ok n) :
    n = min buf.length ((files fd).length - offset.number.toNat) ∧
      step.value.buf = ((files fd).drop offset.number.toNat).take n ++ buf.drop n := by
  cases hread with
  | refused hover => cases hresult
  | empty hnil =>
      cases hresult
      rw [hnil]
      exact ⟨(Nat.zero_min _).symm, rfl⟩
  | failed htiled hpieces hfailed =>
      have hresult' := hfailed.symm.trans hresult
      cases hresult'
  | finished htiled hpieces hfinished =>
      have hbuf : offset.number.toNat + buf.length - offset.number.toNat <= buf.length := by
        omega
      rcases hpieces.copied h hsize htiled (Nat.le_refl _) hbuf hresult with ⟨hn, hbytes⟩
      have hlength : (((files fd).drop offset.number.toNat).take n).length = n := by
        rw [List.length_take, List.length_drop]
        omega
      refine ⟨by omega, ?_⟩
      rw [hbytes, Nat.sub_self, patch, hlength, Nat.zero_add]
      rfl

theorem ReadDone.exists_failed_call {c : Cache (Recorded σ)} {fd : FileDescriptor}
    {offset : ByteOffset} {buf : Bytes} {step : Step (Recorded σ) (Reading (Except Error Nat))}
    {e : Error} (hread : ReadDone c s fd offset buf step s') (h : Truthful files c s)
    (hrange : offset.number.toNat + buf.length < UInt64.size)
    (hresult : step.value.result = .error e) :
    exists call, call ∈ step.cache.source.calls ∧ call.answer = .error e := by
  rcases hread.exists_cause hresult with
    ⟨hover, -⟩ | ⟨c₁, s₁, key, hevolves, hcall, hcause⟩
  · exact absurd hrange (Nat.not_lt.mpr hover)
  · refine ⟨_, hcall, ?_⟩
    cases hcause with
    | failed hanswer => exact hanswer
    | oversized hanswer hlong =>
        rw [(hevolves.truthful h).answer_eq hanswer] at hlong
        exact absurd hlong (Nat.not_lt.mpr (length_blockBytes_le _ _ _))

/--
Whatever was done before, a read within the 64-bit offsets that succeeds fills the buffer
with the bytes that the file has there and leaves the rest of it alone. It succeeds unless a
fetch made by this very read fails, as its recording twin shows.
-/
theorem read_transparent (hvalid : config.Valid) {source : σ}
    (hfaithful : Faithful files config.blockSize source) (operations : List Operation)
    (fd : FileDescriptor) (offset : ByteOffset) (buf : Bytes)
    (hrange : offset.number.toNat + buf.length < UInt64.size) :
    Completes (create config source) fun created =>
      Completes (created.cache.run operations) fun ran =>
        Completes (ran.cache.read fd offset buf) fun step =>
          (forall n, step.value.result = .ok n ->
            n = min buf.length ((files fd).length - offset.number.toNat) ∧
              step.value.buf = ((files fd).drop offset.number.toNat).take n ++ buf.drop n) ∧
          Completes (ran.cache.recorded.read fd offset buf) fun twin =>
            twin.unrecorded = step ∧
              ((forall call, call ∈ twin.cache.source.calls ->
                  exists data, call.answer = .ok data) ->
                exists n, step.value.result = .ok n) := by
  apply create_run_completes hvalid source operations
  intro created ran s hsource hcreated hevolves hran
  have hempty : Truthful files created (.empty : Contents config) := by
    refine ⟨hcreated.config_eq, hsource ▸ hfaithful, ?_⟩
    intro held hheld
    cases hheld
  have htruthful := hevolves.truthful hempty
  have htwin : Truthful files ran.cache.recorded s :=
    ⟨htruthful.config_eq, htruthful.source.recorded [], htruthful.blocks⟩
  rcases read_twin_completes hvalid hran fd offset buf with ⟨twin, hrecorded, hread, s', hdone, -⟩
  refine ⟨twin.unrecorded, hread, ?_, twin, hrecorded, rfl, ?_⟩
  · intro n hresult
    exact hdone.copied htwin hvalid.blockSize_pos hresult
  · intro hcalls
    cases hresult : twin.value.result with
    | ok n => exact ⟨n, hresult⟩
    | error e =>
        rcases hdone.exists_failed_call htwin hrange hresult with ⟨call, hcall, hanswer⟩
        rcases hcalls call hcall with ⟨data, hdata⟩
        rw [hanswer] at hdata
        cases hdata

end Cache

structure LateStarter where
  files : FileDescriptor -> Bytes
  failures : Nat

namespace LateStarter

instance : BlockSource LateStarter where
  fetch source fd index blockSize :=
    { answer :=
        if 0 < source.failures then
          .error (.badDescriptor fd)
        else
          .ok (blockBytes (source.files fd) blockSize.toNat index.number.toNat)
      events := []
      source := { source with failures := source.failures - 1 } }

theorem files_of_later {source later : LateStarter} {blockSize : UInt32}
    (h : Later blockSize source later) : later.files = source.files := by
  induction h with
  | refl => rfl
  | fetched key _ ih => exact ih

theorem faithful (source : LateStarter) (blockSize : UInt32) :
    Faithful source.files blockSize source := by
  intro later hlater key data hanswer
  rw [<- files_of_later hlater]
  simp only [BlockSource.fetch] at hanswer
  split at hanswer
  · cases hanswer
  · exact (Except.ok.inj hanswer).symm

def fiveBytes : LateStarter :=
  ⟨fun _ => [1, 2, 3, 4, 5], 1⟩

end LateStarter

theorem Cache.read_transparent_after_failure :
    threeBlocks.Valid ∧
      Faithful LateStarter.fiveBytes.files threeBlocks.blockSize LateStarter.fiveBytes ∧
      Completes (create threeBlocks LateStarter.fiveBytes) fun created =>
        Completes (created.cache.run [.read ⟨0⟩ ⟨0⟩ [0], .read ⟨0⟩ ⟨0⟩ [0], .clear]) fun ran =>
          Completes (ran.cache.read ⟨0⟩ ⟨1⟩ [9, 9, 9, 9, 9, 9]) fun step =>
            step.value.result = .ok 4 ∧ step.value.buf = [2, 3, 4, 5, 9, 9] := by
  have hfaithful := LateStarter.fiveBytes.faithful threeBlocks.blockSize
  refine ⟨threeBlocks_valid, hfaithful, ?_⟩
  have htransparent := read_transparent threeBlocks_valid hfaithful
    [.read ⟨0⟩ ⟨0⟩ [0], .read ⟨0⟩ ⟨0⟩ [0], .clear] ⟨0⟩ ⟨1⟩ [9, 9, 9, 9, 9, 9] (by decide)
  have hsucceeds : Completes (create threeBlocks LateStarter.fiveBytes) fun created =>
      Completes (created.cache.run [.read ⟨0⟩ ⟨0⟩ [0], .read ⟨0⟩ ⟨0⟩ [0], .clear]) fun ran =>
        Completes (ran.cache.read ⟨0⟩ ⟨1⟩ [9, 9, 9, 9, 9, 9]) fun step =>
          step.value.result = .ok 4 :=
    ⟨_, rfl, _, rfl, _, rfl, rfl⟩
  rcases hsucceeds with ⟨created, hcreate, ran, hrun, step, hread, hresult⟩
  have hcopied := ((htransparent.of_eq hcreate).of_eq hrun).of_eq hread
  exact ⟨created, hcreate, ran, hrun, step, hread, hresult, (hcopied.1 4 hresult).2⟩

end BlockCache

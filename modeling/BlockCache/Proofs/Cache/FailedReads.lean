import BlockCache.Proofs.Cache.ReadParts

/-!
# Failed reads

A read fails because its range is refused, and then nothing has happened, or because a
block cannot be had. In the second case it leaves what a read of the bytes before that
block would have left, and one fetch more that has failed. The block is not admitted, and
no other gives way for it.
-/

namespace BlockCache
namespace Cache

variable {σ : Type} [BlockSource σ] {config : Config} {c : Cache σ} {s s' : Contents config}
  {fd : FileDescriptor} {pieces : List Piece} {buf : Bytes} {e : Error}

theorem Accessed.of_error {key : BlockKey} {step : Step σ (Except Error (Option Slot))}
    (h : Accessed c s key step s') (hvalue : step.value = .error e) :
    step.cache = (c.asked key).countFailure ∧ Absent s key ∧ s' = s := by
  cases h with
  | hit hmem hkey => cases hvalue
  | failed habsent hanswer => exact ⟨rfl, habsent, rfl⟩
  | oversized habsent hanswer hsize => exact ⟨rfl, habsent, rfl⟩
  | pastEnd habsent hanswer => cases hvalue
  | admitted habsent hanswer hstorable hroom fresh => cases hvalue

theorem Accessed.failures_kept {key : BlockKey} {step : Step σ (Except Error (Option Slot))}
    {found : Option Slot} (h : Accessed c s key step s') (hvalue : step.value = .ok found) :
    step.cache.stats.fetchFailures = c.stats.fetchFailures := by
  cases h with
  | hit hmem hkey => rfl
  | failed habsent hanswer => cases hvalue
  | oversized habsent hanswer hsize => cases hvalue
  | pastEnd habsent hanswer => rfl
  | admitted habsent hanswer hstorable hroom fresh => exact hroom.counters.2.2.1

theorem ReadPieces.failures_kept {step : Step σ (Reading (Except Error Nat))} {n : Nat}
    (h : ReadPieces fd pieces c s buf step s') (hresult : step.value.result = .ok n) :
    step.cache.stats.fetchFailures = c.stats.fetchFailures := by
  induction h generalizing n with
  | done => rfl
  | failed haccessed hvalue => cases hresult
  | pastEnd haccessed hvalue => exact haccessed.failures_kept hvalue
  | short haccessed hvalue hmem hkey hshort => exact haccessed.failures_kept hvalue
  | full haccessed hvalue hmem hkey hall hmore ih =>
      rcases exists_of_map_eq_ok hresult with ⟨m, hm, -⟩
      exact (ih hm).trans (haccessed.failures_kept hvalue)

theorem ReadPieces.of_single_error {piece : Piece} {step : Step σ (Reading (Except Error Nat))}
    (h : ReadPieces fd [piece] c s buf step s') (hresult : step.value.result = .error e) :
    step.value.buf = buf ∧ exists accessed, Accessed c s ⟨fd, piece.index⟩ accessed s' ∧
      accessed.value = .error e ∧ step.cache = accessed.cache := by
  cases h with
  | failed haccessed hvalue =>
      cases hresult
      exact ⟨rfl, _, haccessed, hvalue, rfl⟩
  | pastEnd haccessed hvalue => cases hresult
  | short haccessed hvalue hmem hkey hshort => cases hresult
  | full haccessed hvalue hmem hkey hall hmore =>
      cases hmore
      cases hresult

theorem exists_failed_piece (hvalid : config.Valid) (h : Coherent config c s)
    (hpieces : forall piece, piece ∈ pieces ->
      0 < piece.len ∧ piece.dest + piece.len <= buf.length)
    {step : Step σ (Reading (Except Error Nat))} (hread : readPieces fd pieces c buf = .ok step)
    (hresult : step.value.result = .error e) :
    exists (front : List Piece) (piece : Piece) (back : List Piece)
      (first : Step σ (Reading (Except Error Nat))) (s₁ s₂ : Contents config)
      (accessed : Step σ (Except Error (Option Slot))),
      pieces = front ++ piece :: back ∧ readPieces fd front c buf = .ok first ∧
        first.value.result = .ok (total Piece.len front) ∧
        step.value.buf = first.value.buf ∧
        Accessed first.cache s₁ ⟨fd, piece.index⟩ accessed s₂ ∧ accessed.value = .error e ∧
        step.cache = accessed.cache ∧ Coherent config step.cache s₂ := by
  induction pieces generalizing c s buf step with
  | nil =>
      cases hread
      cases hresult
  | cons piece rest ih =>
      rcases hpieces piece List.mem_cons_self with ⟨hpos, hinside⟩
      have hrest : forall other, other ∈ rest -> 0 < other.len ∧
          other.dest + other.len <= buf.length :=
        fun other hother => hpieces other (List.mem_cons_of_mem _ hother)
      have hsingle : forall other, other ∈ [piece] -> other.dest + other.len <= buf.length := by
        intro other hother
        rw [List.mem_singleton.mp hother]
        exact hinside
      rcases readPieces_completes hvalid h hsingle with ⟨alone, halone, s', hmade, h'⟩
      rcases readPieces_cons_cases fd hpos c buf with
        ⟨ended, hended, -⟩ | ⟨c', buf', events, hmore⟩
      · -- What ends the read also ends the read of this piece alone.
        rw [hended] at hread halone
        cases hread.symm.trans halone
        rcases hmade.of_single_error hresult with ⟨hbuf, accessed, haccessed, hvalue, hcache⟩
        exact ⟨[], piece, rest, ⟨⟨.ok 0, buf⟩, c, []⟩, s, s', accessed, rfl, rfl, rfl, hbuf,
          haccessed, hvalue, hcache, h'⟩
      · have hlength := hmade.length_buf hsingle
        rw [hmore] at hread halone
        cases halone
        have hcoherent : Coherent config c' s' := h'
        have hsame : buf'.length = buf.length := hlength
        rcases exists_of_map_eq_ok hread with ⟨more, hmoreRead, rfl⟩
        have hmoreResult := eq_error_of_map_eq_error hresult
        have hpiecesMore : forall other, other ∈ rest -> 0 < other.len ∧
            other.dest + other.len <= buf'.length := by
          intro other hother
          rw [hsame]
          exact hrest other hother
        rcases ih hcoherent hpiecesMore hmoreRead hmoreResult with
          ⟨front, last, back, first, s₁, s₂, accessed, hsplit, hfront, hfull, hbuf, haccessed,
            hvalue, hcache, hleft⟩
        refine ⟨piece :: front, last, back, first.resumed piece.len events, s₁, s₂, accessed, ?_,
          ?_, ?_, hbuf, haccessed, hvalue, hcache, hleft⟩
        · rw [hsplit, List.cons_append]
        · rw [hmore, hfront]
          rfl
        · rw [Step.resumed, hfull]
          rfl

/-- The pieces before another one are read alike by a read that ends there. -/
theorem read_before (hvalid : config.Valid) (h : Coherent config c s) {offset : ByteOffset}
    {front back : List Piece} {piece : Piece}
    (hfits : offset.number.toNat + buf.length < UInt64.size)
    (htiled : TiledAt config offset buf.length (front ++ piece :: back))
    {first : Step σ (Reading (Except Error Nat))} (hfront : readPieces fd front c buf = .ok first)
    (hfull : first.value.result = .ok (total Piece.len front)) :
    exists (patched : Bytes) (events : List Event),
      c.read fd offset (buf.take piece.dest) =
        .ok ⟨⟨.ok piece.dest, patched⟩, first.cache.recast id piece.dest, events⟩ ∧
      first.value.buf = patched ++ buf.drop piece.dest ∧ patched.length = piece.dest ∧
      first.cache.stats.fetchFailures = c.stats.fetchFailures ∧
      first.cache.stats.bytesRead = c.stats.bytesRead := by
  rcases htiled.split hvalid.blockSize_pos with ⟨mid, hle, hlt, hdest, hfrontTiled⟩
  have hlength : (buf.take piece.dest).length = piece.dest := by
    rw [List.length_take]
    omega
  have hmid : mid = offset.number.toNat + (buf.take piece.dest).length := by omega
  rw [hmid] at hfrontTiled
  have hinside : forall other, other ∈ front ->
      other.dest + other.len <= (buf.take piece.dest).length :=
    fun other hother => hfrontTiled.inside_length hother
  rcases readPieces_completes hvalid h hinside with ⟨begun, hbegun, s', hmade, -⟩
  have hlonger := readPieces_front hfrontTiled hbegun (buf.drop piece.dest)
  rw [List.take_append_drop, hfront] at hlonger
  cases hlonger
  have hgiven : begun.value.result = .ok piece.dest := by
    rw [hfrontTiled.total_length, hlength] at hfull
    exact hfull
  have hfrontFits : offset.number.toNat + (buf.take piece.dest).length < UInt64.size := by omega
  rcases read_of_tiled hvalid h.config_eq hfrontFits hfrontTiled hbegun with ⟨events, hdone⟩
  refine ⟨begun.value.buf, events, ?_, rfl, (hmade.length_buf hinside).trans hlength,
    hmade.failures_kept hgiven, (hmade.reads_counted hfrontTiled).2⟩
  rcases begun with ⟨⟨result, patched⟩, cache, firstEvents⟩
  cases hgiven
  exact hdone

/--
A read from `c` into `buf` that has failed at `piece`, for the reason `e`, and the read
`front` of the bytes before that piece.
-/
structure BrokenOff (config : Config) (c : Cache (Recorded σ)) (fd : FileDescriptor) (buf : Bytes)
    (piece : Piece) (e : Error) (front failed : Step (Recorded σ) (Reading (Except Error Nat))) :
    Prop where
  given : front.value.result = .ok piece.dest
  filled : front.value.buf.length = piece.dest
  buffer : failed.value.buf = front.value.buf ++ buf.drop piece.dest
  list : failed.cache.list = front.cache.list
  index : failed.cache.index = front.cache.index
  hits : failed.cache.stats.hits = front.cache.stats.hits
  evictions : failed.cache.stats.evictions = front.cache.stats.evictions
  shortReads : failed.cache.stats.shortReads = front.cache.stats.shortReads
  misses : failed.cache.stats.misses = front.cache.stats.misses + 1
  failures : failed.cache.stats.fetchFailures = c.stats.fetchFailures + 1
  bytes : failed.cache.stats.bytesRead = c.stats.bytesRead
  absent : failed.cache.isResident fd piece.index = false
  cause : exists answer, Cause config ⟨⟨fd, piece.index⟩, answer⟩ e ∧
    failed.cache.source.calls = ⟨⟨fd, piece.index⟩, answer⟩ :: front.cache.source.calls

theorem readPieces_broken_off {c : Cache (Recorded σ)} (hvalid : config.Valid)
    (h : Coherent config c s) {offset : ByteOffset}
    (hfits : offset.number.toNat + buf.length < UInt64.size)
    (htiled : TiledAt config offset buf.length pieces)
    {step : Step (Recorded σ) (Reading (Except Error Nat))}
    (hread : readPieces fd pieces c buf = .ok step) (hresult : step.value.result = .error e) :
    exists (i : Nat) (piece : Piece), pieces[i]? = some piece ∧
      Completes (c.read fd offset (buf.take piece.dest)) fun front =>
        BrokenOff config c fd buf piece e front step ∧ (i = 0 -> front.cache = c) := by
  have hpieces : forall piece, piece ∈ pieces ->
      0 < piece.len ∧ piece.dest + piece.len <= buf.length :=
    fun piece hpiece =>
      ⟨htiled.len_pos hvalid.blockSize_pos hpiece, htiled.inside_length hpiece⟩
  rcases exists_failed_piece hvalid h hpieces hread hresult with
    ⟨front, piece, back, first, s₁, s₂, accessed, rfl, hfront, hfull, hbuf, haccessed, hvalue,
      hcache, hleft⟩
  rcases read_before hvalid h hfits htiled hfront hfull with
    ⟨patched, events, hbefore, hpatched, hlength, hfailures, hbytes⟩
  rcases haccessed.of_error hvalue with ⟨hfailed, habsent, rfl⟩
  rw [hfailed] at hcache
  have hnth : (front ++ piece :: back)[front.length]? = some piece := by simp
  refine ⟨front.length, piece, hnth, _, hbefore, ?_, ?_⟩
  · exact {
      given := rfl
      filled := hlength
      buffer := hbuf.trans hpatched
      list := congrArg (fun c => c.list) hcache
      index := congrArg (fun c => c.index) hcache
      hits := congrArg (fun c => c.stats.hits) hcache
      evictions := congrArg (fun c => c.stats.evictions) hcache
      shortReads := congrArg (fun c => c.stats.shortReads) hcache
      misses := congrArg (fun c => c.stats.misses) hcache
      failures := by rw [hcache, <- hfailures]; rfl
      bytes := by rw [hcache, <- hbytes]; rfl
      absent := hleft.isResident_eq_false_iff.mpr habsent
      cause := ⟨_, haccessed.cause hvalue, congrArg (fun c => c.source.calls) hcache⟩ }
  · intro hzero
    rw [List.length_eq_zero_iff.mp hzero] at hfront htiled
    cases hfront
    have hdest : piece.dest = 0 := htiled.2.2.2.2.1.trans (Nat.sub_self _)
    rw [hdest]
    rfl

/--
A read that fails has changed nothing if its range is refused. Otherwise it has failed at
one of the pieces of its span, and leaves what the read up to that piece leaves, one miss
and one failure later.
-/
theorem failed_read_broken_off {c : Cache σ} (hreachable : Reachable config c)
    (fd : FileDescriptor) (offset : ByteOffset) (buf : Bytes) :
    Completes (c.recorded.read fd offset buf) fun failed =>
      c.read fd offset buf = .ok failed.unrecorded ∧
        forall e, failed.value.result = .error e ->
          (exists reason, Span.ofRange offset buf.length config.blockSize = .error reason ∧
            e = .ofRange reason ∧ failed.cache = c.recorded ∧ failed.value.buf = buf) ∨
          exists (span : Span) (i : Nat) (piece : Piece),
            Span.ofRange offset buf.length config.blockSize = .ok (some span) ∧
              span.pieces[i]? = some piece ∧
              Completes (c.recorded.read fd offset (buf.take piece.dest)) fun front =>
                c.read fd offset (buf.take piece.dest) = .ok front.unrecorded ∧
                  BrokenOff config c.recorded fd buf piece e front failed ∧
                  (i = 0 -> front.cache = c.recorded) := by
  rcases hreachable.coherent with ⟨hvalid, s, h⟩
  rcases read_twin_completes hvalid h fd offset buf with ⟨failed, hfailed, hsame, -⟩
  refine ⟨failed, hfailed, hsame, ?_⟩
  intro e hresult
  unfold read at hfailed
  rw [h.recorded.config_eq] at hfailed
  rcases Span.ofRange_cases hvalid.blockSize_pos offset buf.length with
    ⟨hlen, hrange⟩ | ⟨hpos, hfits, span, hrange, hoffset, hstop, hsize⟩ | ⟨hpos, hover, hrange⟩
  · rw [hrange] at hfailed
    cases hfailed
    cases hresult
  · have htiled := span.tiled_pieces
    rw [hoffset, hstop, hsize] at htiled
    rw [hrange] at hfailed
    rcases exists_of_bind_eq_ok hfailed with ⟨step, hread, hconcluded⟩
    cases hstep : step.value.result with
    | error e' =>
        rw [hstep] at hconcluded
        cases hconcluded
        rcases readPieces_broken_off hvalid h.recorded hfits htiled hread hresult with
          ⟨i, piece, hpiece, front, hfront, hbroken⟩
        exact .inr ⟨span, i, piece, hrange, hpiece, front, hfront, read_of_recorded hfront,
          hbroken⟩
    | ok n =>
        rw [hstep] at hconcluded
        cases hconcluded
        rw [hstep] at hresult
        cases hresult
  · rw [hrange] at hfailed
    cases hfailed
    cases hresult
    exact .inl ⟨_, hrange, rfl, rfl, rfl⟩

theorem failed_read_broken_off_lost_block :
    exists c : Cache MemoryFiles, Reachable threeBlocks c ∧
      Completes (c.recorded.read ⟨5⟩ ⟨0⟩ [0, 0, 0, 0, 0, 0, 0, 0]) fun failed =>
        failed.value = ⟨.error (.fetch ⟨5⟩ ⟨3⟩ "lost"), [1, 2, 3, 4, 5, 6, 0, 0]⟩ ∧
          failed.cache.length = 3 ∧
          exists piece : Piece,
            Completes (c.recorded.read ⟨5⟩ ⟨0⟩ ([0, 0, 0, 0, 0, 0, 0, 0].take piece.dest))
              fun front =>
                BrokenOff threeBlocks c.recorded ⟨5⟩ [0, 0, 0, 0, 0, 0, 0, 0] piece
                  (.fetch ⟨5⟩ ⟨3⟩ "lost") front failed := by
  have hrun : Completes (create threeBlocks lostBlock) fun created =>
      Completes (created.cache.perform (.read ⟨5⟩ ⟨0⟩ [0])) fun begun =>
        Completes (begun.cache.recorded.read ⟨5⟩ ⟨0⟩ [0, 0, 0, 0, 0, 0, 0, 0]) fun failed =>
          failed.value = ⟨.error (.fetch ⟨5⟩ ⟨3⟩ "lost"), [1, 2, 3, 4, 5, 6, 0, 0]⟩ ∧
            failed.cache.length = 3 :=
    ⟨_, rfl, _, rfl, _, rfl, rfl, rfl⟩
  rcases hrun with ⟨created, hcreate, begun, hbegun, failed, hfailed, hvalue, hlength⟩
  have hreachable := (Reachable.created hcreate).performed hbegun
  have hfails := failed_read_broken_off hreachable ⟨5⟩ ⟨0⟩ [0, 0, 0, 0, 0, 0, 0, 0]
  rcases hfails.of_eq hfailed with ⟨-, hbroken⟩
  refine ⟨begun.cache, hreachable, failed, hfailed, hvalue, hlength, ?_⟩
  rcases hbroken _ (congrArg Reading.result hvalue) with
    ⟨reason, hrange, -⟩ | ⟨span, i, piece, -, -, front, hfront, -, hleft, -⟩
  · cases hrange
  · exact ⟨piece, front, hfront, hleft⟩

end Cache
end BlockCache

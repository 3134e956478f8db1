import BlockCache.Proofs.Cache.Fetches

/-!
# Provenance

Nothing is asked of a source here: it may answer a fetch today and another tomorrow. A
resident block still has the bytes that the latest fetch of it has answered, and nothing
has dropped it since. So what a read copies comes from resident blocks, or from fetches
that the read makes itself.
-/

namespace BlockCache
namespace Cache

variable {σ : Type} [BlockSource σ] {config : Config} {c c₁ : Cache σ} {s s' : Contents config}
  {log : List (Moment σ)} {m : Moment σ} {key : BlockKey} {data : Bytes}

/--
The latest fetch of the block has answered `data`, and neither the blocks of its file nor
all blocks were dropped after it.
-/
def LastFetched (log : List (Moment σ)) (key : BlockKey) (data : Bytes) : Prop :=
  exists past m later, log = past ++ m :: later ∧ m.call? = some ⟨key, .ok data⟩ ∧
    forall m', m' ∈ later ->
      m'.call?.map Call.key ≠ some key ∧ m'.deed ≠ .clear ∧ m'.deed ≠ .invalidate key.fd

theorem LastFetched.concat (h : LastFetched log key data) (hfetches : m.fetches key = false)
    (hdeed : m.deed ≠ .clear ∧ m.deed ≠ .invalidate key.fd) :
    LastFetched (log ++ [m]) key data := by
  rcases h with ⟨past, fetched, later, rfl, hcall, hlater⟩
  refine ⟨past, fetched, later ++ [m], ?_, hcall, ?_⟩
  · rw [List.append_assoc, List.cons_append]
  · intro m' hm'
    rcases List.mem_append.mp hm' with hm' | hm'
    · exact hlater m' hm'
    · cases List.mem_singleton.mp hm'
      exact ⟨Moment.call?_ne_of_fetches hfetches, hdeed⟩

theorem lastFetched_concat (log : List (Moment σ)) (h : m.admits key = true)
    (hanswer : (m.before.supply key).answer = .ok data) : LastFetched (log ++ [m]) key data := by
  refine ⟨log, m, [], rfl, ?_, fun m' hm' => absurd hm' List.not_mem_nil⟩
  rw [Moment.call?_of_fetches (Bool.and_eq_true_iff.mp h).1, hanswer]

theorem Passes.lastFetched (h : Coherent config m.before s) (h' : Coherent config m.after s')
    (hpasses : Passes m s s')
    (hlog : forall e, e ∈ s.items -> LastFetched log e.2.key e.2.data) :
    forall e, e ∈ s'.items -> LastFetched (log ++ [m]) e.2.key e.2.data := by
  intro e he
  have hdeed := hpasses.deed_ne he
  cases hpasses.origin h h' he with
  | kept hmem hfetches hcredits => exact (hlog e hmem).concat hfetches hdeed
  | credited hmem hcredit hfetches hcredits =>
      have hbefore := hlog _ hmem
      rw [hcredit] at hfetches hdeed ⊢
      exact hbefore.concat hfetches hdeed
  | admitted hadmits hzero hanswer => exact lastFetched_concat log hadmits hanswer

theorem Chronicle.lastFetched (h : Chronicle c (.empty : Contents config) log c₁ s) :
    forall e, e ∈ s.items -> LastFetched log e.2.key e.2.data := by
  induction h with
  | refl =>
      intro e he
      cases he
  | passed _ hbefore hpasses hafter ih => exact hpasses.lastFetched hbefore hafter ih
  | counted _ ih => exact ih

theorem access_calls (hvalid : config.Valid) (h : Coherent config c s) (key : BlockKey) :
    Completes (c.recorded.access key.fd key.index) fun twin =>
      twin.cache.source.calls =
        if c.isResident key.fd key.index then [] else [⟨key, (c.supply key).answer⟩] := by
  refine (access_completes hvalid h.recorded key).mono ?_
  rintro twin ⟨s', haccessed, -⟩
  have hresident : c.recorded.isResident key.fd key.index = c.isResident key.fd key.index := rfl
  have hanswer : (c.recorded.supply key).answer = (c.supply key).answer := rfl
  have hcalls : c.recorded.source.calls = [] := rfl
  rw [haccessed.calls h.recorded, Moment.call?_access, hresident, hanswer, hcalls,
    List.append_nil]
  split <;> rfl

theorem read_calls (hvalid : config.Valid) (h : Coherent config c s) (fd : FileDescriptor)
    (offset : ByteOffset) (buf : Bytes) :
    Completes (c.recorded.read fd offset buf) fun twin =>
      c.read fd offset buf = .ok twin.unrecorded ∧
        twin.cache.source.calls.reverse =
          (c.journal (.read fd offset buf)).filterMap Moment.call? := by
  rcases read_chronicle hvalid h.recorded fd offset buf with
    ⟨twin, htwin, -, s', hchronicle, -⟩
  refine ⟨twin, htwin, read_of_recorded htwin, ?_⟩
  have hcalls : c.recorded.source.calls = [] := rfl
  rw [hchronicle.calls, hcalls, List.append_nil, List.reverse_reverse,
    <- filterMap_call?_unrecorded, <- journal_unrecorded, unrecorded_recorded]

theorem read_storable (hvalid : config.Valid) (h : Coherent config c s) {fd : FileDescriptor}
    {offset : ByteOffset} {buf : Bytes} {past later : List (Moment σ)} {call : Call}
    (hlog : c.journal (.read fd offset buf) = past ++ m :: later) (hlater : later ≠ [])
    (hcall : m.call? = some call) :
    exists data, call.answer = .ok data ∧ Storable config data := by
  rcases exists_tiled_piecesOf hvalid h offset buf.length with ⟨stop, htiled⟩
  have hpaced : Paced fd (c.piecesOf offset buf.length) c (past ++ m :: later) :=
    hlog ▸ readJournal_paced hvalid h _
  rcases hpaced.filled hlater with ⟨piece, hpiece, hdeed, hall⟩
  have hkey : call.key = ⟨fd, piece.index⟩ :=
    Deed.access.inj ((Moment.deed_of_call? hcall).symm.trans hdeed)
  have hoffered : m.before.offered call.key ≠ [] := by
    intro hnil
    have hpos := htiled.len_pos hvalid.blockSize_pos hpiece
    rw [<- hkey, hnil, Piece.available, List.length_nil, Nat.zero_sub, Nat.min_zero] at hall
    omega
  rcases read_chronicle hvalid h fd offset buf with ⟨step, -, -, s', hchronicle, -⟩
  have hm : m ∈ c.journal (.read fd offset buf) := by
    rw [hlog]
    exact List.mem_append_right _ List.mem_cons_self
  rcases hchronicle.of_mem hm with ⟨t, t', hbefore, -, -⟩
  rcases Moment.exists_answer_of_offered hcall hoffered with ⟨data, hanswer, hne, hsize⟩
  rw [hbefore.config_eq] at hsize
  exact ⟨data, hanswer, hne, hsize⟩

/--
A run can be recorded, and the record holds the fetches of its journal. A resident block
has the bytes of the latest fetch of it, and was not dropped since; an access fetches once
if the block is not resident, and else not at all. A read accesses the blocks of its pieces
in order, up to the first that cannot fill its piece, and copies what these blocks have; a
fetch that does not answer a block is the last.
-/
theorem provenance_of_reached (h : ReachedBy config log c) :
    (exists recording twin, ReachedBy config recording twin ∧
      recording.map Moment.unrecorded = log ∧ twin.unrecorded = c ∧
        twin.source.calls.reverse = log.filterMap Moment.call?) ∧
      (Completes c.residents fun residents =>
        forall r, r ∈ residents -> LastFetched log r.1.key r.1.data) ∧
      (forall key : BlockKey, Completes (c.recorded.access key.fd key.index) fun twin =>
        twin.cache.source.calls =
          if c.isResident key.fd key.index then [] else [⟨key, (c.supply key).answer⟩]) ∧
      forall fd offset buf, Completes (c.read fd offset buf) fun step =>
        Completes (c.recorded.read fd offset buf) fun twin =>
          twin.unrecorded = step ∧
            twin.cache.source.calls.reverse =
              (c.journal (.read fd offset buf)).filterMap Moment.call? ∧
            twin.cache.source.calls.reverse.Pairwise (fun call call' =>
              call.key.index.number < call'.key.index.number) ∧
            Paced fd (c.piecesOf offset buf.length) c (c.journal (.read fd offset buf)) ∧
            (forall past m later call, c.journal (.read fd offset buf) = past ++ m :: later ->
              later ≠ [] -> m.call? = some call ->
                exists data, call.answer = .ok data ∧ Storable config data) ∧
            step.value.buf = delivered fd (c.piecesOf offset buf.length)
              (c.journal (.read fd offset buf)) buf := by
  rcases h.chronicle with ⟨hvalid, created, s, hchronicle, hs⟩
  refine ⟨h.recorded, ?_, fun key => access_calls hvalid hs key, ?_⟩
  · refine hs.residents_completes.mono ?_
    rintro residents rfl r hr
    rcases Zones.mem_map_residents_iff.mp hr with ⟨slot, hzone⟩
    exact hchronicle.lastFetched _ (CutSequence.mem_items_of_zone hzone)
  · intro fd offset buf
    rcases read_calls hvalid hs fd offset buf with ⟨twin, htwin, hread, hcalls⟩
    have hbuf := ((read_chronicle hvalid hs fd offset buf).of_eq hread).1
    rcases exists_tiled_piecesOf hvalid hs offset buf.length with ⟨stop, htiled⟩
    have hpaced : Paced fd (c.piecesOf offset buf.length) c (c.journal (.read fd offset buf)) :=
      readJournal_paced hvalid hs _
    refine ⟨twin.unrecorded, hread, twin, htwin, rfl, hcalls, ?_, hpaced, ?_, hbuf⟩
    · rw [hcalls]
      exact hpaced.calls_pairwise (htiled.pairwise_index hvalid.blockSize_pos)
    · intro past m later call hlog hlater hcall
      exact read_storable hvalid hs hlog hlater hcall

/-- A source that answers how many fetches it has seen before. -/
structure Ticking where
  fetches : Nat

instance : BlockSource Ticking where
  fetch source _ _ _ := ⟨.ok [UInt8.ofNat source.fetches], [], ⟨source.fetches + 1⟩⟩

theorem provenance_of_reached_ticking :
    exists (log : List (Moment Ticking)) (c : Cache Ticking),
      ReachedBy threeBlocks log c ∧ Completes c.residents fun residents =>
        residents.map (fun r => (r.1.key, r.1.data)) = [(⟨⟨5⟩, ⟨0⟩⟩, [2]), (⟨⟨6⟩, ⟨0⟩⟩, [1])] ∧
          forall r, r ∈ residents -> LastFetched log r.1.key r.1.data := by
  have hrun : Completes (create threeBlocks (⟨0⟩ : Ticking)) fun created =>
      Completes (created.cache.perform (.read ⟨5⟩ ⟨0⟩ [0])) fun first =>
        Completes (first.cache.perform (.read ⟨6⟩ ⟨0⟩ [0])) fun second =>
          Completes (second.cache.perform (.invalidate ⟨5⟩ .given)) fun third =>
            Completes (third.cache.perform (.read ⟨5⟩ ⟨0⟩ [0])) fun last =>
              Completes last.cache.residents fun residents =>
                residents.map (fun r => (r.1.key, r.1.data)) =
                  [(⟨⟨5⟩, ⟨0⟩⟩, [2]), (⟨⟨6⟩, ⟨0⟩⟩, [1])] :=
    ⟨_, rfl, _, rfl, _, rfl, _, rfl, _, rfl, _, rfl, rfl⟩
  rcases hrun with ⟨created, hcreate, first, hfirst, second, hsecond, third, hthird,
    last, hlast, residents, hresidents, hdata⟩
  have htrail := (((Trail.refl.performed hfirst).performed hsecond).performed hthird).performed
    hlast
  have hreached := ReachedBy.created hcreate htrail
  have hfetched := (provenance_of_reached hreached).2.1.of_eq hresidents
  exact ⟨_, _, hreached, residents, hresidents, hdata, hfetched⟩

end Cache
end BlockCache

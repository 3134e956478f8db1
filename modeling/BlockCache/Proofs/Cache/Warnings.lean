import BlockCache.Proofs.Cache.ReadParts

/-!
# Warnings

A fetch fails if the source answers with an error, or with more bytes than a block has.
Both are counted, but only the first is warned about. So the warnings of a run are its
fetches that the source has answered with an error, in order, and the counter of failed
fetches is ahead of them by the blocks that were too long.
-/

namespace BlockCache

structure FailedFetch where
  key : BlockKey
  error : Error
deriving DecidableEq, Repr

def FailedFetch.record (failed : FailedFetch) : Record :=
  ⟨.warn, "fbr::cache", "fbr_fetch_failed",
    [("fd", .descriptor failed.key.fd), ("block", .count failed.key.index.number.toNat),
      ("error", .text failed.error.message)]⟩

def Record.isFetchWarning (record : Record) : Bool :=
  record.level = .warn && record.name = "fbr_fetch_failed"

def warnings (log : List Event) : List Record :=
  (log.map Event.record).filter Record.isFetchWarning

namespace Call

def failed? (call : Call) : Option FailedFetch :=
  match call.answer with
  | .error e => some ⟨call.key, e⟩
  | .ok _ => none

def isOversized (config : Config) (call : Call) : Bool :=
  match call.answer with
  | .error _ => false
  | .ok data => config.blockSize.toNat < data.length

end Call

namespace Event

def failed? : Event -> Option FailedFetch
  | .fetchFailed fd block error => some ⟨⟨fd, block⟩, error⟩
  | _ => none

theorem record_cases (event : Event) :
    (exists failed, event.failed? = some failed ∧ event.record = failed.record) ∨
      event.failed? = none ∧ event.record.level ≠ .warn := by
  cases event with
  | fetchFailed fd block error => exact .inl ⟨_, rfl, rfl⟩
  | source report =>
      refine .inr ⟨rfl, ?_⟩
      cases report <;> exact Level.noConfusion
  | _ => exact .inr ⟨rfl, Level.noConfusion⟩

theorem failed?_moved (moves : List Move) : (moves.map Event.moved).filterMap failed? = [] := by
  simp [List.filterMap_map, Function.comp_def, failed?]

theorem failed?_source (reports : List SourceEvent) :
    (reports.map Event.source).filterMap failed? = [] := by
  simp [List.filterMap_map, Function.comp_def, failed?]

end Event

/-- A log warns of the failed fetches that its events tell of, and of no others. -/
theorem warnings_eq (log : List Event) :
    warnings log = (log.filterMap Event.failed?).map FailedFetch.record := by
  induction log with
  | nil => rfl
  | cons event log ih =>
      rw [warnings, List.map_cons, List.filterMap_cons]
      rcases event.record_cases with ⟨failed, hfailed, hrecord⟩ | ⟨hnone, hlevel⟩
      · have hwarning : failed.record.isFetchWarning = true := by
          simp [FailedFetch.record, Record.isFetchWarning]
        rw [hrecord, List.filter_cons_of_pos hwarning, hfailed]
        exact congrArg (List.cons _) ih
      · have hother : ¬ event.record.isFetchWarning = true := by
          simp [Record.isFetchWarning, hlevel]
        rw [List.filter_cons_of_neg hother, hnone]
        exact ih

namespace Cache

/-!
# What is told and what is counted
-/

section Told

variable {σ : Type} {config : Config} {c c₁ c₂ : Cache (Recorded σ)}
  {calls calls' : List Call} {events events' : List Event}

/--
The fetches made between two caches, in order. Those answered by an error are told, and
counted; those that give too much are counted only.
-/
structure Warned (config : Config) (calls : List Call) (events : List Event)
    (c c₁ : Cache (Recorded σ)) : Prop where
  made : c₁.source.calls = calls.reverse ++ c.source.calls
  told : events.filterMap Event.failed? = calls.filterMap Call.failed?
  counted : c₁.stats.fetchFailures = c.stats.fetchFailures +
    (calls.filterMap Call.failed?).length + calls.countP (Call.isOversized config)

theorem Warned.quiet (hsource : c₁.source = c.source)
    (hfailures : c₁.stats.fetchFailures = c.stats.fetchFailures)
    (hevents : events.filterMap Event.failed? = []) : Warned config [] events c c₁ :=
  ⟨congrArg Recorded.calls hsource, hevents, hfailures⟩

theorem Warned.refl (c : Cache (Recorded σ)) : Warned config [] [] c c :=
  .quiet rfl rfl rfl

theorem Warned.trans (h : Warned config calls events c c₁)
    (h' : Warned config calls' events' c₁ c₂) :
    Warned config (calls ++ calls') (events ++ events') c c₂ := by
  constructor
  · rw [h'.made, h.made, List.reverse_append, List.append_assoc]
  · rw [List.filterMap_append, List.filterMap_append, h.told, h'.told]
  · rw [h'.counted, h.counted, List.filterMap_append, List.length_append, List.countP_append]
    omega

theorem Warned.fetched {call : Call} (hcalls : c₁.source.calls = call :: c.source.calls)
    (hevents : events.filterMap Event.failed? = call.failed?.toList)
    (hfailures : c₁.stats.fetchFailures = c.stats.fetchFailures +
      call.failed?.toList.length + (call.isOversized config).toNat) :
    Warned config [call] events c c₁ := by
  have hfailed : [call].filterMap Call.failed? = call.failed?.toList := by
    cases hcall : call.failed? <;> simp [hcall]
  have hoversized : [call].countP (Call.isOversized config) = (call.isOversized config).toNat := by
    cases hcall : call.isOversized config <;> simp [hcall]
  constructor
  · exact hcalls
  · rw [hevents, hfailed]
  · rw [hfailures, hfailed, hoversized]

end Told

/-!
# Accesses, reads and drops
-/

section Steps

variable {σ : Type} {config : Config} {c : Cache (Recorded σ)} {s s' : Contents config}

theorem MadeRoom.untold {room : Step (Recorded σ) (Option Block)} (h : MadeRoom c s room s') :
    room.events.filterMap Event.failed? = [] := by
  cases h with
  | spare hlt => rfl
  | evicted hfull hcandidate hmem =>
      rw [List.filterMap_append, Event.failed?_moved]
      rfl

theorem Invalidated.untold {fd : FileDescriptor} {step : Step (Recorded σ) Nat}
    (h : Invalidated c s fd step s') : Warned config [] step.events c step.cache := by
  cases h with
  | absent hnone => exact .refl c
  | dropped hfile hcount =>
      refine .quiet rfl rfl ?_
      rw [List.filterMap_append, Event.failed?_moved]
      rfl

variable [BlockSource σ]

theorem calls_asked (c : Cache (Recorded σ)) {key : BlockKey} {answer : Except Error Bytes}
    (h : (c.supply key).answer = answer) :
    (c.asked key).source.calls = ⟨key, answer⟩ :: c.source.calls := by
  rw [<- h]
  rfl

theorem Accessed.warned {key : BlockKey} {step : Step (Recorded σ) (Except Error (Option Slot))}
    (h : Accessed c s key step s') :
    exists calls, Warned config calls step.events c step.cache := by
  cases h with
  | hit hmem hkey =>
      refine ⟨[], .quiet rfl rfl ?_⟩
      rw [List.filterMap_append, Event.failed?_moved]
      rfl
  | failed habsent hanswer =>
      rename_i e
      refine ⟨[⟨key, .error e⟩], .fetched (calls_asked c hanswer) ?_ rfl⟩
      rw [List.filterMap_append, Event.failed?_source]
      rfl
  | oversized habsent hanswer hsize =>
      rename_i data
      have hoversized : Call.isOversized config ⟨key, .ok data⟩ = true := decide_eq_true hsize
      refine ⟨[⟨key, .ok data⟩], .fetched (calls_asked c hanswer)
        (Event.failed?_source _) ?_⟩
      rw [hoversized]
      rfl
  | pastEnd habsent hanswer =>
      refine ⟨[⟨key, .ok []⟩], .fetched (calls_asked c hanswer) ?_ rfl⟩
      rw [List.filterMap_append, Event.failed?_source]
      rfl
  | admitted habsent hanswer hstorable hroom fresh =>
      rename_i data room s₁ slot list moves
      have hfits : Call.isOversized config ⟨key, .ok data⟩ = false :=
        decide_eq_false (Nat.not_lt.mpr hstorable.2)
      have hcalls : room.cache.source.calls = ⟨key, .ok data⟩ :: c.source.calls := by
        rw [hroom.kept.2.1, calls_asked c hanswer]
      refine ⟨[⟨key, .ok data⟩], .fetched hcalls ?_ ?_⟩
      · simp only [List.filterMap_append, Event.failed?_source, Event.failed?_moved, hroom.untold]
        rfl
      · rw [hfits]
        exact hroom.counters.2.2.1

theorem ReadPieces.warned {fd : FileDescriptor} {pieces : List Piece} {buf : Bytes}
    {step : Step (Recorded σ) (Reading (Except Error Nat))}
    (h : ReadPieces fd pieces c s buf step s') :
    exists calls, Warned config calls step.events c step.cache := by
  induction h with
  | done => exact ⟨[], .refl _⟩
  | failed haccessed hvalue => exact haccessed.warned
  | pastEnd haccessed hvalue =>
      rcases haccessed.warned with ⟨calls, hcalls⟩
      exact ⟨calls, hcalls.made, hcalls.told, hcalls.counted⟩
  | short haccessed hvalue hmem hkey hshort =>
      rcases haccessed.warned with ⟨calls, hcalls⟩
      exact ⟨calls, hcalls.made, hcalls.told, hcalls.counted⟩
  | full haccessed hvalue hmem hkey hall hmore ih =>
      rcases haccessed.warned with ⟨calls, hcalls⟩
      rcases ih with ⟨calls', hcalls'⟩
      exact ⟨calls ++ calls', hcalls.trans hcalls'⟩

theorem ReadDone.warned {fd : FileDescriptor} {offset : ByteOffset} {buf : Bytes}
    {step : Step (Recorded σ) (Reading (Except Error Nat))}
    (h : ReadDone c s fd offset buf step s') :
    exists calls, Warned config calls step.events c step.cache := by
  cases h with
  | refused hover => exact ⟨[], .refl c⟩
  | empty hnil => exact ⟨[], .refl c⟩
  | failed htiled hpieces hresult => exact hpieces.warned
  | finished htiled hpieces hresult =>
      rcases hpieces.warned with ⟨calls, hcalls⟩
      refine ⟨calls, hcalls.made, ?_, hcalls.counted⟩
      rw [List.filterMap_append, hcalls.told]
      exact List.append_nil _

/-!
# Operations and runs
-/

theorem perform_warned (hvalid : config.Valid) (h : Coherent config c s)
    (operation : Operation) :
    Completes (c.perform operation) fun step =>
      exists calls, Warned config calls step.events c step.cache := by
  cases operation with
  | read fd offset buf =>
      apply (read_completes hvalid h fd offset buf).map
      rintro step ⟨s', hread, -⟩
      exact hread.warned
  | readRaw fd offset size buf =>
      rcases Nat.lt_or_ge buf.length size with hsize | hsize
      · rw [perform, readRaw_of_lt hsize]
        exact Completes.ok ⟨[], .refl c⟩
      · rw [perform, readRaw_of_le hsize]
        rcases read_completes hvalid h fd offset (buf.take size) with ⟨step, hstep, s', hread, -⟩
        rw [hstep]
        exact Completes.ok hread.warned
  | invalidate fd order =>
      apply (invalidate_completes h fd order).map
      rintro step ⟨s', hdropped, -⟩
      exact ⟨[], hdropped.untold⟩
  | clear => exact Completes.ok ⟨[], .quiet rfl rfl rfl⟩

theorem run_warned (hvalid : config.Valid) (h : Coherent config c s)
    (operations : List Operation) :
    Completes (c.run operations) fun ran =>
      exists calls, Warned config calls ran.events c ran.cache := by
  induction operations generalizing c s with
  | nil => exact Completes.ok ⟨[], .refl c⟩
  | cons operation operations ih =>
      rcases perform_completes hvalid h operation with ⟨first, hfirst, s₁, -, h₁⟩
      rcases (perform_warned hvalid h operation).of_eq hfirst with ⟨calls, hcalls⟩
      apply Completes.bind_eq hfirst
      apply (ih h₁).bind
      rintro rest ⟨calls', hcalls'⟩
      exact Completes.pure ⟨calls ++ calls', hcalls.trans hcalls'⟩

end Steps

/--
After every run, the warnings of failed fetches are one for each fetch that the source has
answered with an error, in order, with its file, block and reason. The counter of failed
fetches also counts the fetches that gave more than a block, so it is the number of warnings
exactly if there was none of these.
-/
theorem failed_fetches_warned {σ : Type} [BlockSource σ] {config : Config}
    (hvalid : config.Valid) (source : σ) (operations : List Operation) :
    Completes (create config source) fun created =>
      Completes (created.cache.run operations) fun ran =>
        Completes (created.cache.recorded.run operations) fun twin =>
          twin.unrecorded = ran ∧
            warnings (created.events ++ ran.events) =
              (twin.cache.source.calls.reverse.filterMap Call.failed?).map FailedFetch.record ∧
            ran.cache.stats.fetchFailures = (warnings (created.events ++ ran.events)).length +
              twin.cache.source.calls.countP (Call.isOversized config) ∧
            (ran.cache.stats.fetchFailures = (warnings (created.events ++ ran.events)).length <->
              forall call, call ∈ twin.cache.source.calls -> call.isOversized config = false) := by
  rcases create_completes hvalid source with ⟨created, hcreate, -, hcreated⟩
  have hstart : created.events = [.created config] ∧ created.cache.stats.fetchFailures = 0 := by
    rw [create, Config.validate_eq_ok_iff.mpr hvalid] at hcreate
    cases hcreate
    exact ⟨rfl, rfl⟩
  rcases run_warned hvalid hcreated.recorded operations with ⟨twin, htwin, calls, hcalls⟩
  have hran : created.cache.run operations = .ok twin.unrecorded := by
    rw [<- unrecorded_recorded created.cache, run_unrecorded, htwin]
    rfl
  have hmade : twin.cache.source.calls = calls.reverse := hcalls.made.trans (List.append_nil _)
  have hwarnings : warnings (created.events ++ twin.events) =
      (calls.filterMap Call.failed?).map FailedFetch.record := by
    rw [warnings_eq, hstart.1, List.filterMap_append, hcalls.told]
    rfl
  have hfailures : twin.cache.stats.fetchFailures =
      (warnings (created.events ++ twin.events)).length +
        twin.cache.source.calls.countP (Call.isOversized config) := by
    have hzero : created.cache.recorded.stats.fetchFailures = 0 := hstart.2
    rw [hwarnings, hcalls.counted, hzero, hmade, List.countP_reverse, List.length_map,
      Nat.zero_add]
  refine ⟨created, hcreate, twin.unrecorded, hran, twin, htwin, rfl, ?_, hfailures, ?_⟩
  · rw [hmade, List.reverse_reverse]
    exact hwarnings
  · have hnone : twin.cache.source.calls.countP (Call.isOversized config) = 0 <->
        forall call, call ∈ twin.cache.source.calls -> call.isOversized config = false := by
      simp only [List.countP_eq_zero, Bool.not_eq_true]
    rw [<- hnone]
    exact hfailures ▸ Nat.add_eq_left

def longBlock : MemoryFiles :=
  lostBlock.addFault ⟨⟨5⟩, some ⟨1⟩, some 1, .give 3⟩

theorem failed_fetches_warned_long_block :
    threeBlocks.Valid ∧
      Completes (create threeBlocks longBlock) fun created =>
        Completes (created.cache.run [.read ⟨5⟩ ⟨0⟩ [0, 0, 0, 0, 0, 0, 0, 0],
            .read ⟨5⟩ ⟨0⟩ [0, 0, 0, 0, 0, 0, 0, 0]]) fun ran =>
          warnings (created.events ++ ran.events) =
              [FailedFetch.record ⟨⟨⟨5⟩, ⟨3⟩⟩, .fetch ⟨5⟩ ⟨3⟩ "lost"⟩] ∧
            ran.cache.stats.fetchFailures = 2 ∧
            Completes (created.cache.recorded.run [.read ⟨5⟩ ⟨0⟩ [0, 0, 0, 0, 0, 0, 0, 0],
                .read ⟨5⟩ ⟨0⟩ [0, 0, 0, 0, 0, 0, 0, 0]]) fun twin =>
              twin.cache.source.calls.countP (Call.isOversized threeBlocks) = 1 := by
  refine ⟨threeBlocks_valid, ?_⟩
  have hwarned := failed_fetches_warned threeBlocks_valid longBlock
    [.read ⟨5⟩ ⟨0⟩ [0, 0, 0, 0, 0, 0, 0, 0], .read ⟨5⟩ ⟨0⟩ [0, 0, 0, 0, 0, 0, 0, 0]]
  have hrun : Completes (create threeBlocks longBlock) fun created =>
      Completes (created.cache.run [.read ⟨5⟩ ⟨0⟩ [0, 0, 0, 0, 0, 0, 0, 0],
          .read ⟨5⟩ ⟨0⟩ [0, 0, 0, 0, 0, 0, 0, 0]]) fun ran =>
        warnings (created.events ++ ran.events) =
            [FailedFetch.record ⟨⟨⟨5⟩, ⟨3⟩⟩, .fetch ⟨5⟩ ⟨3⟩ "lost"⟩] ∧
          ran.cache.stats.fetchFailures = 2 :=
    ⟨_, rfl, _, rfl, by decide +kernel⟩
  rcases hrun with ⟨created, hcreate, ran, hran, hwarnings, hfailures⟩
  rcases (hwarned.of_eq hcreate).of_eq hran with ⟨twin, htwin, -, -, hcount, -⟩
  refine ⟨created, hcreate, ran, hran, hwarnings, hfailures, twin, htwin, ?_⟩
  rw [hwarnings, hfailures, List.length_singleton] at hcount
  omega

/-- A fetch that gives too much is counted as a failure, and nothing warns of it. -/
theorem long_block_not_warned :
    Completes (create threeBlocks longBlock) fun created =>
      Completes (created.cache.run [.read ⟨5⟩ ⟨2⟩ [0]]) fun ran =>
        ran.cache.stats.fetchFailures = 1 ∧ warnings (created.events ++ ran.events) = [] :=
  ⟨_, rfl, _, rfl, by decide +kernel⟩

end Cache
end BlockCache

import BlockCache.Proofs.Cache.Moments
import BlockCache.Proofs.Cache.Recording

/-!
# Fetches

A cache fetches a block when the block is accessed and is not resident, and at no other
time, so the fetches of a run can be read off its journal. A twin that records shows that
these are the fetches which the source has seen.
-/

namespace BlockCache

namespace Moment

section Calls

variable {σ : Type} [BlockSource σ] {m : Moment σ} {key : BlockKey}

def call? (m : Moment σ) : Option Call :=
  match m.deed with
  | .access key =>
      if m.before.isResident key.fd key.index then
        none
      else
        some ⟨key, (m.before.supply key).answer⟩
  | .invalidate _ => none
  | .clear => none

theorem call?_access (key : BlockKey) (c c' : Cache σ) :
    (⟨.access key, c, c'⟩ : Moment σ).call? =
      if c.isResident key.fd key.index then none else some ⟨key, (c.supply key).answer⟩ := rfl

theorem call?_of_fetches (h : m.fetches key = true) :
    m.call? = some ⟨key, (m.before.supply key).answer⟩ := by
  rcases Bool.and_eq_true_iff.mp h with ⟨hdeed, hresident⟩
  rw [Bool.not_eq_true'] at hresident
  rw [call?, of_decide_eq_true hdeed]
  exact if_neg (Bool.eq_false_iff.mp hresident)

theorem fetches_of_call? {call : Call} (h : m.call? = some call) : m.fetches call.key = true := by
  unfold call? at h
  cases hdeed : m.deed with
  | access key =>
      rw [hdeed] at h
      cases hresident : m.before.isResident key.fd key.index with
      | true => simp [hresident] at h
      | false =>
          simp only [hresident, Bool.false_eq_true, if_false, Option.some.injEq] at h
          simp [<- h, fetches, hdeed, hresident]
  | invalidate fd =>
      rw [hdeed] at h
      cases h
  | clear =>
      rw [hdeed] at h
      cases h

theorem deed_of_call? {call : Call} (h : m.call? = some call) : m.deed = .access call.key :=
  of_decide_eq_true (Bool.and_eq_true_iff.mp (fetches_of_call? h)).1

theorem exists_answer_of_offered {call : Call} (h : m.call? = some call)
    (hoffered : m.before.offered call.key ≠ []) :
    exists data, call.answer = .ok data ∧ data ≠ [] ∧
      data.length <= m.before.config.blockSize.toNat := by
  have hfetches := fetches_of_call? h
  rw [call?_of_fetches hfetches] at h
  have hanswer : (m.before.supply call.key).answer = call.answer :=
    congrArg Call.answer (Option.some.inj h)
  have hslot : m.before.slot? call.key.fd call.key.index = none := by
    have hresident := (Bool.and_eq_true_iff.mp hfetches).2
    simpa [Cache.isResident] using hresident
  simp only [Cache.offered, hslot, hanswer] at hoffered
  cases hdata : call.answer with
  | error e =>
      rw [hdata] at hoffered
      exact absurd rfl hoffered
  | ok data =>
      rw [hdata] at hoffered
      by_cases hsize : data.length <= m.before.config.blockSize.toNat
      · simp only [if_pos hsize] at hoffered
        exact ⟨data, rfl, hoffered, hsize⟩
      · simp only [if_neg hsize] at hoffered
        exact absurd rfl hoffered

theorem call?_ne_of_fetches (h : m.fetches key = false) : m.call?.map Call.key ≠ some key := by
  intro hcall
  rcases Option.map_eq_some_iff.mp hcall with ⟨call, hsome, rfl⟩
  rw [fetches_of_call? hsome] at h
  cases h

end Calls

variable {σ : Type}

def unrecorded (m : Moment (Recorded σ)) : Moment σ :=
  ⟨m.deed, m.before.unrecorded, m.after.unrecorded⟩

theorem call?_unrecorded [BlockSource σ] (m : Moment (Recorded σ)) :
    m.unrecorded.call? = m.call? := by
  cases m with
  | mk deed before after =>
      cases deed <;> rfl

end Moment

namespace Cache

section Recorded

variable {σ : Type} [BlockSource σ] {config : Config} {c c₁ : Cache (Recorded σ)}
  {s s' : Contents config} {log : List (Moment (Recorded σ))}

theorem Accessed.calls {key : BlockKey} {step : Step (Recorded σ) (Except Error (Option Slot))}
    (h : Coherent config c s) (haccessed : Accessed c s key step s') :
    step.cache.source.calls =
      (⟨.access key, c, step.cache⟩ : Moment (Recorded σ)).call?.toList ++ c.source.calls := by
  have hmissed : Absent s key -> ¬ c.isResident key.fd key.index = true :=
    fun habsent => Bool.eq_false_iff.mp (h.isResident_eq_false_iff.mpr habsent)
  rw [Moment.call?_access]
  cases haccessed with
  | hit hmem hkey =>
      rw [if_pos (h.isResident_iff.mpr ⟨_, _, hmem, hkey⟩)]
      rfl
  | failed habsent | oversized habsent | pastEnd habsent =>
      rw [if_neg (hmissed habsent)]
      rfl
  | admitted habsent hanswer hstorable hroom fresh =>
      rw [if_neg (hmissed habsent)]
      exact congrArg Recorded.calls hroom.kept.2.1

theorem Passes.calls {m : Moment (Recorded σ)} (h : Coherent config m.before s)
    (hpasses : Passes m s s') :
    m.after.source.calls = m.call?.toList ++ m.before.source.calls := by
  cases hpasses with
  | accessed haccessed => exact haccessed.calls h
  | invalidated hslots => rfl
  | cleared => rfl

theorem Chronicle.calls (h : Chronicle c s log c₁ s') :
    c₁.source.calls = (log.filterMap Moment.call?).reverse ++ c.source.calls := by
  induction h with
  | refl => rfl
  | passed hpast hbefore hpasses hafter ih =>
      rename_i log m s₁ s₂
      rw [hpasses.calls hbefore, ih, List.filterMap_append, List.reverse_append, List.append_assoc]
      cases hcall : m.call? <;> simp [hcall]
  | counted _ ih => exact ih

end Recorded

/-!
# Journals of twins
-/

section Twins

variable {σ : Type} [BlockSource σ] {config : Config}

theorem readJournal_unrecorded (fd : FileDescriptor) (pieces : List Piece)
    (c : Cache (Recorded σ)) :
    readJournal fd pieces c.unrecorded = (readJournal fd pieces c).map Moment.unrecorded := by
  induction pieces generalizing c with
  | nil => rfl
  | cons piece rest ih =>
      have hoffered : c.unrecorded.offered ⟨fd, piece.index⟩ = c.offered ⟨fd, piece.index⟩ := rfl
      rw [readJournal, readJournal, access_unrecorded, hoffered]
      cases c.access fd piece.index with
      | error e => rfl
      | ok accessed =>
          have hcache : accessed.unrecorded.cache = accessed.cache.unrecorded := rfl
          simp only [Except.map, List.map_cons, hcache]
          by_cases hall : piece.available (c.offered ⟨fd, piece.index⟩) = piece.len
          · rw [if_pos hall, if_pos hall, ih]
            rfl
          · rw [if_neg hall, if_neg hall]
            rfl

theorem journal_unrecorded (c : Cache (Recorded σ)) (operation : Operation) :
    c.unrecorded.journal operation = (c.journal operation).map Moment.unrecorded := by
  cases operation with
  | read fd offset buf => exact readJournal_unrecorded ..
  | readRaw fd offset size buf =>
      rw [journal, journal]
      by_cases hsize : buf.length < size
      · rw [if_pos hsize, if_pos hsize]
        rfl
      · rw [if_neg hsize, if_neg hsize]
        exact readJournal_unrecorded ..
  | invalidate fd order =>
      rw [journal, journal, invalidate_unrecorded]
      cases c.invalidate fd order <;> rfl
  | clear => rfl

theorem filterMap_call?_unrecorded (log : List (Moment (Recorded σ))) :
    (log.map Moment.unrecorded).filterMap Moment.call? = log.filterMap Moment.call? := by
  rw [List.filterMap_map]
  exact congrArg (List.filterMap · log) (funext Moment.call?_unrecorded)

theorem Trail.recorded {c : Cache (Recorded σ)} {log : List (Moment σ)} {c₁ : Cache σ}
    (h : Trail c.unrecorded log c₁) :
    exists recording twin, Trail c recording twin ∧ recording.map Moment.unrecorded = log ∧
      twin.unrecorded = c₁ := by
  induction h with
  | refl => exact ⟨[], c, .refl, rfl, rfl⟩
  | accessed _ haccess ih =>
      rcases ih with ⟨recording, twin, htrail, rfl, rfl⟩
      rw [access_unrecorded] at haccess
      rcases exists_of_map_eq_ok haccess with ⟨step, hstep, rfl⟩
      refine ⟨_, step.cache, htrail.accessed hstep, ?_, rfl⟩
      rw [List.map_append]
      rfl
  | performed _ hperform ih =>
      rcases ih with ⟨recording, twin, htrail, rfl, rfl⟩
      rw [perform_unrecorded] at hperform
      rcases exists_of_map_eq_ok hperform with ⟨step, hstep, rfl⟩
      refine ⟨_, step.cache, htrail.performed hstep, ?_, rfl⟩
      rw [List.map_append, journal_unrecorded]

/-- Every run can be recorded, and its source sees the fetches of its journal. -/
theorem ReachedBy.recorded {log : List (Moment σ)} {c : Cache σ} (h : ReachedBy config log c) :
    exists recording twin, ReachedBy config recording twin ∧
      recording.map Moment.unrecorded = log ∧ twin.unrecorded = c ∧
      twin.source.calls.reverse = log.filterMap Moment.call? := by
  cases h with
  | created hcreate htrail =>
      rename_i source step
      have hvalid := valid_of_create hcreate
      have htwin := create_unrecorded config ⟨source, []⟩
      rw [hcreate] at htwin
      rcases exists_of_map_eq_ok htwin.symm with ⟨created, hcreated, rfl⟩
      rcases htrail.recorded with ⟨recording, twin, htrail', hlog, hc⟩
      refine ⟨recording, twin, .created hcreated htrail', hlog, hc, ?_⟩
      rcases (create_completes hvalid _).of_eq hcreated with ⟨hsource, hempty⟩
      rcases htrail'.chronicle hvalid hempty with ⟨s, hchronicle, -⟩
      rw [hchronicle.calls, hsource, List.append_nil, List.reverse_reverse, <- hlog,
        filterMap_call?_unrecorded]

end Twins

/-!
# The pace of a read
-/

section Pace

variable {σ : Type} {config : Config} {c : Cache σ} {s : Contents config} {fd : FileDescriptor}

theorem exists_tiled_piecesOf (hvalid : config.Valid) (h : Coherent config c s)
    (offset : ByteOffset) (len : Nat) :
    exists stop, Tiled config.blockSize.toNat offset.number.toNat stop offset.number.toNat
      (c.piecesOf offset len) := by
  rw [piecesOf, h.config_eq]
  rcases Span.ofRange_cases hvalid.blockSize_pos offset len with
    ⟨-, hrange⟩ | ⟨-, -, span, hrange, hoffset, -, hsize⟩ | ⟨-, -, hrange⟩
  · rw [hrange]
    exact ⟨_, rfl⟩
  · have htiled := span.tiled_pieces
    rw [hoffset, hsize] at htiled
    rw [hrange]
    exact ⟨_, htiled⟩
  · rw [hrange]
    exact ⟨_, rfl⟩

variable [BlockSource σ]

/--
One access for each piece, in order, and the next piece only if this one could be filled.
Each access finds the cache that the one before it has left.
-/
structure Paced (fd : FileDescriptor) (pieces : List Piece) (c : Cache σ)
    (log : List (Moment σ)) : Prop where
  deeds : log.map Moment.deed =
    (pieces.take log.length).map fun piece => .access ⟨fd, piece.index⟩
  first : forall m, log.head? = some m -> m.before = c
  chained : log.IsChain fun m m' => m'.before = m.after
  starts : pieces ≠ [] -> log ≠ []
  goes_on : forall i piece m, pieces[i]? = some piece -> log[i]? = some m ->
    i + 1 < pieces.length ->
      (i + 1 < log.length <->
        piece.available (m.before.offered ⟨fd, piece.index⟩) = piece.len)

theorem Paced.length_le {pieces : List Piece} {log : List (Moment σ)}
    (h : Paced fd pieces c log) : log.length <= pieces.length := by
  have hdeeds := congrArg List.length h.deeds
  rw [List.length_map, List.length_map, List.length_take] at hdeeds
  exact hdeeds ▸ Nat.min_le_right _ _

theorem Paced.nil (fd : FileDescriptor) (c : Cache σ) : Paced fd [] c [] where
  deeds := rfl
  first m hm := by cases hm
  chained := .nil
  starts hne := absurd rfl hne
  goes_on i piece m hpiece hm hmore := by cases hm

theorem Paced.stopped {piece : Piece} (rest : List Piece) (after : Cache σ)
    (hshort : piece.available (c.offered ⟨fd, piece.index⟩) ≠ piece.len) :
    Paced fd (piece :: rest) c [⟨.access ⟨fd, piece.index⟩, c, after⟩] where
  deeds := rfl
  first m hm := by
    cases hm
    rfl
  chained := .singleton _
  starts _ := List.cons_ne_nil _ _
  goes_on i other m hother hm _ := by
    cases i with
    | zero =>
        cases hother
        cases hm
        exact iff_of_false (Nat.lt_irrefl 1) hshort
    | succ i => cases hm

theorem Paced.cons {piece : Piece} {rest : List Piece} {after : Cache σ}
    {log : List (Moment σ)} (h : Paced fd rest after log)
    (hall : piece.available (c.offered ⟨fd, piece.index⟩) = piece.len) :
    Paced fd (piece :: rest) c (⟨.access ⟨fd, piece.index⟩, c, after⟩ :: log) where
  deeds := congrArg (List.cons _) h.deeds
  first m hm := by
    cases hm
    rfl
  chained := by
    cases log with
    | nil => exact .singleton _
    | cons m log => exact .cons_cons (h.first m rfl) h.chained
  starts _ := List.cons_ne_nil _ _
  goes_on i other m hother hm hmore := by
    cases i with
    | zero =>
        cases hother
        cases hm
        have hrest : rest ≠ [] := List.length_pos_iff.mp (Nat.lt_of_succ_lt_succ hmore)
        exact iff_of_true (Nat.succ_lt_succ (List.length_pos_iff.mpr (h.starts hrest))) hall
    | succ i =>
        rw [List.length_cons, Nat.succ_lt_succ_iff]
        exact h.goes_on i other m hother hm (Nat.lt_of_succ_lt_succ hmore)

theorem readJournal_paced (hvalid : config.Valid) (h : Coherent config c s)
    (pieces : List Piece) : Paced fd pieces c (readJournal fd pieces c) := by
  induction pieces generalizing c s with
  | nil => exact .nil fd c
  | cons piece rest ih =>
      rcases access_completes hvalid h ⟨fd, piece.index⟩ with
        ⟨accessed, haccess, s', haccessed, h'⟩
      rw [readJournal_cons haccess]
      by_cases hall : piece.available (c.offered ⟨fd, piece.index⟩) = piece.len
      · rw [if_pos hall]
        exact (ih h').cons hall
      · rw [if_neg hall]
        exact .stopped rest accessed.cache hall

theorem Paced.filled {pieces : List Piece} {past later : List (Moment σ)} {m : Moment σ}
    (h : Paced fd pieces c (past ++ m :: later)) (hlater : later ≠ []) :
    exists piece, piece ∈ pieces ∧ m.deed = .access ⟨fd, piece.index⟩ ∧
      piece.available (m.before.offered ⟨fd, piece.index⟩) = piece.len := by
  have hpos := List.length_pos_iff.mpr hlater
  have hlength : (past ++ m :: later).length = past.length + 1 + later.length := by
    rw [List.length_append, List.length_cons]
    omega
  have hle : (past ++ m :: later).length <= pieces.length := by
    have hdeeds := congrArg List.length h.deeds
    rw [List.length_map, List.length_map, List.length_take] at hdeeds
    omega
  have hm : (past ++ m :: later)[past.length]? = some m := by
    rw [List.getElem?_append_right (Nat.le_refl _), Nat.sub_self, List.getElem?_cons_zero]
  have hinside : past.length < pieces.length := by
    omega
  have hpiece := List.getElem?_eq_getElem hinside
  refine ⟨_, List.getElem_mem hinside, ?_, ?_⟩
  · have hdeed := congrArg (fun deeds => deeds[past.length]?) h.deeds
    simp only [List.getElem?_map, hm] at hdeed
    rw [List.getElem?_take_of_lt (by omega), hpiece] at hdeed
    exact Option.some.inj hdeed
  · exact (h.goes_on past.length _ m hpiece hm (by omega)).mp (by omega)

theorem calls_sublist {keys : List BlockKey} {log : List (Moment σ)}
    (h : log.map Moment.deed = keys.map .access) :
    ((log.filterMap Moment.call?).map Call.key).Sublist keys := by
  induction log generalizing keys with
  | nil => exact List.nil_sublist _
  | cons m log ih =>
      cases keys with
      | nil => cases h
      | cons key keys =>
          rcases List.cons.inj h with ⟨hdeed, hrest⟩
          cases hcall : m.call? with
          | none =>
              rw [List.filterMap_cons_none hcall]
              exact (ih hrest).cons key
          | some call =>
              have hkey : call.key = key :=
                Deed.access.inj ((Moment.deed_of_call? hcall).symm.trans hdeed)
              rw [List.filterMap_cons_some hcall, List.map_cons, hkey]
              exact (ih hrest).cons_cons key

theorem Paced.calls_pairwise {log : List (Moment σ)} {pieces : List Piece}
    (h : Paced fd pieces c log)
    (hpieces : pieces.Pairwise fun piece piece' => piece.index.number < piece'.index.number) :
    (log.filterMap Moment.call?).Pairwise fun call call' =>
      call.key.index.number < call'.key.index.number := by
  have hdeeds : log.map Moment.deed =
      ((pieces.take log.length).map fun piece => (⟨fd, piece.index⟩ : BlockKey)).map .access := by
    rw [List.map_map]
    exact h.deeds
  have hkeys : ((pieces.take log.length).map fun piece => (⟨fd, piece.index⟩ : BlockKey)).Pairwise
      fun key key' => key.index.number < key'.index.number :=
    List.pairwise_map.mpr (hpieces.sublist (List.take_sublist _ _))
  have hcalls := hkeys.sublist (calls_sublist hdeeds)
  rw [List.pairwise_map] at hcalls
  exact hcalls

end Pace

end Cache
end BlockCache

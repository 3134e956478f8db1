import BlockCache.Proofs.Cache.Keys
import BlockCache.Proofs.Cache.SegmentBalance
import Mathlib.Data.Finset.Card

/-!
# What the events say

The events that a cache reports are enough to know which blocks are resident: admissions
add a block, evictions and invalidations take blocks away, and nothing else matters. They
also tell how often a block was credited since it was admitted, which is its counter.

The cache itself is not looked at here. A log is replayed over a set of keys, and the
blocks of the cache are compared with that set after every event.
-/

namespace BlockCache

def Event.replayed (resident : Finset BlockKey) : Event -> Finset BlockKey
  | .admitted fd block _ _ => insert ⟨fd, block⟩ resident
  | .evicted fd block _ => resident.erase ⟨fd, block⟩
  | .invalidated fd _ => resident.filter fun key => key.fd ≠ fd
  | .cleared => ∅
  | _ => resident

def Event.admits (key : BlockKey) : Event -> Bool
  | .admitted fd block _ _ => key = ⟨fd, block⟩
  | _ => false

def replay (log : List Event) : Finset BlockKey :=
  log.foldl Event.replayed ∅

def creditsIn (log : List Event) (key : BlockKey) : Nat :=
  (log.reverse.takeWhile fun event => !event.admits key).countP fun event =>
    event = .hit key.fd key.index true

/-- What an event says agrees with the events before it. -/
def Event.Consistent (capacity : Nat) (past : List Event) (event : Event) : Prop :=
  match event with
  | .admitted fd block _ resident =>
      ⟨fd, block⟩ ∉ replay past ∧ resident = (replay (past ++ [event])).card ∧
        resident <= capacity
  | .evicted fd block counter =>
      ⟨fd, block⟩ ∈ replay past ∧
        counter.toNat = min (UInt64.size - 1) (creditsIn past ⟨fd, block⟩)
  | .hit fd block _ => ⟨fd, block⟩ ∈ replay past
  | .invalidated _ dropped => dropped + (replay (past ++ [event])).card = (replay past).card
  | _ => True

theorem replay_concat (log : List Event) (event : Event) :
    replay (log ++ [event]) = event.replayed (replay log) := by
  rw [replay, List.foldl_append]
  rfl

theorem creditsIn_concat (log : List Event) (event : Event) (key : BlockKey) :
    creditsIn (log ++ [event]) key =
      if event.admits key then 0
      else creditsIn log key + if event = .hit key.fd key.index true then 1 else 0 := by
  unfold creditsIn
  rw [List.reverse_append, List.reverse_singleton, List.singleton_append, List.takeWhile_cons]
  cases event.admits key with
  | true => rfl
  | false =>
      rw [Bool.not_false, if_pos rfl, List.countP_cons]
      simp

def ConsistentLog (capacity : Nat) (log : List Event) : Prop :=
  forall past event later, log = past ++ event :: later -> event.Consistent capacity past

theorem ConsistentLog.concat {capacity : Nat} {log : List Event} {event : Event}
    (h : ConsistentLog capacity log) (hevent : event.Consistent capacity log) :
    ConsistentLog capacity (log ++ [event]) := by
  intro past last later hlog
  rcases List.eq_nil_or_concat later with hnil | ⟨init, final, hconcat⟩
  · rw [hnil] at hlog
    rcases List.append_inj' hlog rfl with ⟨hpast, hlast⟩
    cases hlast
    rw [<- hpast]
    exact hevent
  · rw [hconcat, List.concat_eq_append, <- List.cons_append, <- List.append_assoc] at hlog
    rcases List.append_inj' hlog rfl with ⟨hinit, -⟩
    exact h past last init hinit

/-!
# Events that say nothing about blocks
-/

def Event.neutral : Event -> Bool
  | .created _ | .fetchFailed _ _ _ | .pastEnd _ _ | .moved _ | .read _ _ _ _ | .source _ => true
  | .hit _ _ _ | .evicted _ _ _ | .admitted _ _ _ _ | .invalidated _ _ | .cleared => false

namespace Cache

variable {σ : Type} {config : Config} {c : Cache σ} {s s' : Contents config}
  {log : List Event} {key : BlockKey} {slot : Slot} {block : Block}

/-- The log has the resident blocks and their counters, and agrees with itself. -/
structure Logged (log : List Event) (s : Contents config) : Prop where
  nodup : s.keys.Nodup
  length_le : s.items.length <= config.capacity.toNat
  replay_eq : replay log = s.keys.toFinset
  counter : forall e, e ∈ s.items ->
    e.2.counter.toNat = min (UInt64.size - 1) (creditsIn log e.2.key)
  consistent : ConsistentLog config.capacity.toNat log

theorem Logged.mem_replay_iff (h : Logged log s) : key ∈ replay log <-> key ∈ s.keys := by
  rw [h.replay_eq, List.mem_toFinset]

theorem Logged.card_replay (h : Logged log s) : (replay log).card = s.items.length := by
  rw [h.replay_eq, List.toFinset_card_of_nodup h.nodup, s.length_keys]

theorem logged_nil : Logged [] (.empty : Contents config) where
  nodup := List.nodup_nil
  length_le := Nat.zero_le _
  replay_eq := rfl
  counter e he := by cases he
  consistent past event later hlog := by
    cases past <;> cases hlog

theorem Logged.neutral (h : Logged log s) {event : Event} (hevent : event.neutral = true) :
    Logged (log ++ [event]) s := by
  have hreplayed : event.replayed (replay log) = replay log := by
    cases event <;> first | rfl | cases hevent
  have hadmits : forall key, event.admits key = false := by
    intro key
    cases event <;> first | rfl | cases hevent
  have hhit : forall key : BlockKey, event ≠ .hit key.fd key.index true := by
    intro key heq
    rw [heq] at hevent
    cases hevent
  have hconsistent : event.Consistent config.capacity.toNat log := by
    cases event <;> trivial
  constructor
  · exact h.nodup
  · exact h.length_le
  · rw [replay_concat, hreplayed, h.replay_eq]
  · intro e he
    rw [creditsIn_concat, hadmits, if_neg (hhit e.2.key)]
    exact h.counter e he
  · exact h.consistent.concat hconsistent

theorem Logged.neutrals (h : Logged log s) {events : List Event}
    (hevents : forall event, event ∈ events -> event.neutral = true) :
    Logged (log ++ events) s := by
  induction events generalizing log with
  | nil =>
      rw [List.append_nil]
      exact h
  | cons event events ih =>
      rw [List.append_cons]
      apply ih
      · exact h.neutral (hevents event List.mem_cons_self)
      · intro other hother
        exact hevents other (List.mem_cons_of_mem _ hother)

theorem Logged.moved (h : Logged log s) (moves : List Move) :
    Logged (log ++ moves.map .moved) s := by
  apply h.neutrals
  intro event hevent
  rcases List.mem_map.mp hevent with ⟨move, -, rfl⟩
  rfl

theorem Logged.reported (h : Logged log s) (events : List SourceEvent) :
    Logged (log ++ events.map .source) s := by
  apply h.neutrals
  intro event hevent
  rcases List.mem_map.mp hevent with ⟨report, -, rfl⟩
  rfl

/-!
# Events about blocks

Each event is compared with the change of the blocks that it reports.
-/

theorem fst_touch (hmem : (slot, block) ∈ s.items) :
    (s.touch slot).1 = decide (slot ∉ s.newSlots) := by
  have hblock := CutSequence.block?_eq_some_iff.mpr hmem
  by_cases hnew : slot ∈ s.newSlots
  · rw [CutSequence.touch_of_new hblock hnew]
    simp [hnew]
  · rw [CutSequence.touch_of_not_new hblock hnew]
    simp [hnew]

theorem Logged.hit (h : Logged log s) (hmem : (slot, block) ∈ s.items) :
    Logged (log ++ [.hit block.key.fd block.key.index (s.touch slot).1]) (s.touch slot).2 := by
  have hperm := s.keys_touch_perm slot
  constructor
  · exact hperm.nodup_iff.mpr h.nodup
  · rw [<- CutSequence.length_keys, hperm.length_eq, CutSequence.length_keys]
    exact h.length_le
  · rw [replay_concat, List.toFinset_eq_of_perm _ _ hperm]
    exact h.replay_eq
  · intro e he
    rw [creditsIn_concat]
    rcases List.mem_cons.mp ((CutSequence.items_touch_perm hmem).mem_iff.mp he) with rfl | hrest
    · rw [CutSequence.key_counted, fst_touch hmem]
      have hbefore := h.counter _ hmem
      unfold CutSequence.counted
      by_cases hnew : slot ∈ s.newSlots
      · simp [hnew, Event.admits, hbefore]
      · simp only [hnew, Event.admits, if_false, Block.toNat_counter_credit, hbefore]
        simp only [not_false_eq_true, decide_true, Bool.false_eq_true, if_false, if_true]
        omega
    · rcases mem_without.mp hrest with ⟨hitem, hslot⟩
      have hkey : e.2.key ≠ block.key := by
        intro hkey
        exact hslot (congrArg Prod.fst (CutSequence.eq_of_key_eq h.nodup hitem hmem hkey))
      have hother : Event.hit block.key.fd block.key.index (s.touch slot).1 ≠
          .hit e.2.key.fd e.2.key.index true := by
        intro heq
        injection heq with hfd hindex _
        exact hkey (BlockKey.eq_iff.mpr ⟨hfd.symm, hindex.symm⟩)
      rw [if_neg hother]
      exact h.counter e hitem
  · exact h.consistent.concat (h.mem_replay_iff.mpr (CutSequence.mem_keys hmem))

theorem Logged.evicted (h : Logged log s) (hmem : (slot, block) ∈ s.items) :
    Logged (log ++ [.evicted block.fd block.index block.counter]) (s.remove slot) := by
  have hkeys : (s.remove slot).keys = s.keys.filter fun key => !decide (key = block.key) :=
    (CutSequence.selects_slot h.nodup hmem).keys_removeAll
  have hsub : (s.remove slot).items.Sublist s.items := List.filter_sublist
  constructor
  · exact h.nodup.sublist (hsub.map _)
  · exact Nat.le_trans hsub.length_le h.length_le
  · rw [replay_concat, hkeys, List.toFinset_filter, <- h.replay_eq]
    show (replay log).erase block.key = _
    ext key
    simp [and_comm]
  · intro e he
    rw [creditsIn_concat]
    exact h.counter e (hsub.subset he)
  · exact h.consistent.concat
      ⟨h.mem_replay_iff.mpr (CutSequence.mem_keys hmem), h.counter _ hmem⟩

theorem Logged.admitted (h : Logged log s) (habsent : Absent s block.key)
    (hroom : s.items.length < config.capacity.toNat) (hcounter : block.counter = 0)
    (fresh : slot ∉ s.slots) (len : Nat) :
    Logged (log ++ [.admitted block.fd block.index len (s.items.length + 1)])
      (s.push slot block fresh) := by
  have hnot := absent_iff.mp habsent
  have hreplay : replay (log ++ [.admitted block.fd block.index len (s.items.length + 1)]) =
      (s.push slot block fresh).keys.toFinset := by
    rw [replay_concat, CutSequence.keys_push, List.toFinset_cons, <- h.replay_eq]
    rfl
  have hnodup : (s.push slot block fresh).keys.Nodup := List.nodup_cons.mpr ⟨hnot, h.nodup⟩
  constructor
  · exact hnodup
  · exact hroom
  · exact hreplay
  · intro e he
    rw [creditsIn_concat]
    rcases List.mem_cons.mp he with rfl | hitem
    · have hadmits : Event.admits block.key
          (.admitted block.fd block.index len (s.items.length + 1)) = true := decide_eq_true rfl
      rw [if_pos hadmits, hcounter]
      rfl
    · have hadmits : Event.admits e.2.key
          (.admitted block.fd block.index len (s.items.length + 1)) = false := by
        apply decide_eq_false
        intro hkey
        have hmem := CutSequence.mem_keys hitem
        rw [hkey] at hmem
        exact hnot hmem
      rw [hadmits]
      exact h.counter e hitem
  · apply h.consistent.concat
    constructor
    · rw [h.mem_replay_iff]
      exact hnot
    constructor
    · rw [hreplay, List.toFinset_card_of_nodup hnodup, CutSequence.length_keys]
      rfl
    · exact hroom

theorem Logged.invalidated (h : Logged log s) {slots : List Slot} {fd : FileDescriptor} {n : Nat}
    (hfile : forall held, held ∈ s.holdings -> (held.slot ∈ slots <-> held.key.fd = fd))
    (hn : n + (s.removeAll slots).items.length = s.items.length) :
    Logged (log ++ [.invalidated fd n]) (s.removeAll slots) := by
  have hkeys := (CutSequence.selects_file hfile).keys_removeAll
  have hsub : (s.removeAll slots).items.Sublist s.items := by
    rw [CutSequence.items_removeAll]
    exact List.filter_sublist
  have hnodup : (s.removeAll slots).keys.Nodup := h.nodup.sublist (hsub.map _)
  have hreplay : replay (log ++ [.invalidated fd n]) = (s.removeAll slots).keys.toFinset := by
    rw [replay_concat, hkeys, List.toFinset_filter, <- h.replay_eq]
    ext key
    simp [Event.replayed]
  constructor
  · exact hnodup
  · exact Nat.le_trans hsub.length_le h.length_le
  · exact hreplay
  · intro e he
    rw [creditsIn_concat]
    exact h.counter e (hsub.subset he)
  · apply h.consistent.concat
    show n + (replay (log ++ [.invalidated fd n])).card = (replay log).card
    rw [hreplay, List.toFinset_card_of_nodup hnodup, CutSequence.length_keys, h.card_replay]
    exact hn

theorem Logged.cleared (h : Logged log s) :
    Logged (log ++ [.cleared]) (.empty : Contents config) := by
  constructor
  · exact List.nodup_nil
  · exact Nat.zero_le _
  · rw [replay_concat]
    rfl
  · intro e he
    cases he
  · exact h.consistent.concat trivial

/-!
# Accesses, reads and drops
-/

theorem MadeRoom.logged {room : Step σ (Option Block)} (hroom : MadeRoom c s room s')
    (h : Logged log s) : Logged (log ++ room.events) s' := by
  cases hroom with
  | spare hlt =>
      rw [List.append_nil]
      exact h
  | evicted hfull hcandidate hmem =>
      rw [<- List.append_assoc]
      exact (h.moved _).evicted hmem

theorem Invalidated.logged {fd : FileDescriptor} {step : Step σ Nat}
    (hdropped : Invalidated c s fd step s') (h : Logged log s) :
    Logged (log ++ step.events) s' := by
  cases hdropped with
  | absent _ =>
      rw [List.append_nil]
      exact h
  | dropped hfile hn =>
      rw [<- List.append_assoc]
      exact (h.moved _).invalidated hfile hn

variable [BlockSource σ]

theorem Accessed.logged {step : Step σ (Except Error (Option Slot))}
    (haccessed : Accessed c s key step s') (h : Logged log s) :
    Logged (log ++ step.events) s' := by
  cases haccessed with
  | hit hmem hkey =>
      rw [<- List.append_assoc, <- hkey]
      exact (h.moved _).hit hmem
  | failed habsent hanswer =>
      rw [<- List.append_assoc]
      exact (h.reported _).neutral rfl
  | oversized habsent hanswer hsize => exact h.reported _
  | pastEnd habsent hanswer =>
      rw [<- List.append_assoc]
      exact (h.reported _).neutral rfl
  | admitted habsent hanswer hstorable hroom fresh =>
      simp only [<- List.append_assoc]
      rename_i data room s₁ slot list moves
      have hroomy := hroom.logged (h.reported (c.supply key).events)
      let block : Block := { fd := key.fd, index := key.index, counter := 0, data := data }
      have habsent' : Absent s₁ block.key := hroom.absent habsent
      exact (hroomy.moved moves).admitted habsent' (hroom.length_lt h.length_le) rfl fresh
        data.length

theorem ReadPieces.logged {fd : FileDescriptor} {pieces : List Piece} {buf : Bytes}
    {step : Step σ (Reading (Except Error Nat))} (hread : ReadPieces fd pieces c s buf step s')
    (h : Logged log s) : Logged (log ++ step.events) s' := by
  induction hread generalizing log with
  | done =>
      rw [List.append_nil]
      exact h
  | failed haccessed _ => exact haccessed.logged h
  | pastEnd haccessed _ => exact haccessed.logged h
  | short haccessed _ _ _ _ => exact haccessed.logged h
  | full haccessed _ _ _ _ _ ih =>
      rw [<- List.append_assoc]
      exact ih (haccessed.logged h)

theorem ReadDone.logged {fd : FileDescriptor} {offset : ByteOffset} {buf : Bytes}
    {step : Step σ (Reading (Except Error Nat))} (hread : ReadDone c s fd offset buf step s')
    (h : Logged log s) : Logged (log ++ step.events) s' := by
  cases hread with
  | refused _ =>
      rw [List.append_nil]
      exact h
  | empty _ =>
      rw [List.append_nil]
      exact h
  | failed _ hpieces _ => exact hpieces.logged h
  | finished _ hpieces _ =>
      rw [<- List.append_assoc]
      exact (hpieces.logged h).neutral rfl

/-!
# Operations and runs
-/

theorem read_logged (hvalid : config.Valid) (hc : Coherent config c s) (h : Logged log s)
    (fd : FileDescriptor) (offset : ByteOffset) (buf : Bytes) :
    Completes (c.read fd offset buf) fun step =>
      exists s', Logged (log ++ step.events) s' ∧ Coherent config step.cache s' := by
  apply (read_completes hvalid hc fd offset buf).mono
  intro step hstep
  rcases hstep with ⟨s', hread, hc'⟩
  exact ⟨s', hread.logged h, hc'⟩

theorem perform_logged (hvalid : config.Valid) (hc : Coherent config c s) (h : Logged log s)
    (operation : Operation) :
    Completes (c.perform operation) fun step =>
      exists s', Logged (log ++ step.events) s' ∧ Coherent config step.cache s' := by
  have hnothing : Logged (log ++ []) s := (List.append_nil log).symm ▸ h
  cases operation with
  | read fd offset buf =>
      exact (read_logged hvalid hc h fd offset buf).map fun _ hstep => hstep
  | readRaw fd offset size buf =>
      rcases Nat.lt_or_ge buf.length size with hsize | hsize
      · rw [perform, readRaw_of_lt hsize]
        exact Completes.ok ⟨s, hnothing, hc⟩
      · rw [perform, readRaw_of_le hsize]
        apply Completes.map ((read_logged hvalid hc h fd offset (buf.take size)).map _)
        · intro _ hstep
          exact hstep
        · intro _ hstep
          exact hstep
  | invalidate fd order =>
      apply (invalidate_completes hc fd order).map
      intro step hstep
      rcases hstep with ⟨s', hdropped, hc'⟩
      exact ⟨s', hdropped.logged h, hc'⟩
  | clear => exact Completes.ok ⟨.empty, h.cleared, (clear_coherent hvalid hc).2⟩

theorem run_logged (hvalid : config.Valid) (hc : Coherent config c s) (h : Logged log s)
    (operations : List Operation) :
    Completes (c.run operations) fun ran =>
      exists s', Logged (log ++ ran.events) s' ∧ Coherent config ran.cache s' := by
  induction operations generalizing c s log with
  | nil => exact Completes.ok ⟨s, (List.append_nil log).symm ▸ h, hc⟩
  | cons operation operations ih =>
      apply (perform_logged hvalid hc h operation).bind
      intro first hfirst
      rcases hfirst with ⟨s₁, h₁, hc₁⟩
      apply (ih hc₁ h₁).bind
      intro rest hrest
      rcases hrest with ⟨s₂, h₂, hc₂⟩
      rw [List.append_assoc] at h₂
      exact Completes.pure ⟨s₂, h₂, hc₂⟩

/--
After every run, replaying the events reported so far gives the resident blocks. No block
is admitted that is there already, and the size of the set is what the admission says; only
blocks that are there are evicted or hit; an eviction tells how often the block was credited
since it was admitted, up to the largest word; and an invalidation tells how many blocks it
has taken away.
-/
theorem events_determine_residents (hvalid : config.Valid) (source : σ)
    (operations : List Operation) :
    Completes (create config source) fun created =>
      Completes (created.cache.run operations) fun ran =>
        (Completes ran.cache.residents fun residents =>
          replay (created.events ++ ran.events) =
            (residents.map fun r => r.1.key).toFinset) ∧
        (forall key : BlockKey, key ∈ replay (created.events ++ ran.events) <->
          ran.cache.isResident key.fd key.index = true) ∧
        ConsistentLog config.capacity.toNat (created.events ++ ran.events) := by
  rcases create_completes hvalid source with ⟨created, hcreate, -, hcreated⟩
  have hevents : created.events = [.created config] := by
    rw [create, Config.validate_eq_ok_iff.mpr hvalid] at hcreate
    cases hcreate
    rfl
  have hlogged : Logged created.events (.empty : Contents config) := by
    rw [hevents]
    exact logged_nil.neutral rfl
  refine ⟨created, hcreate, (run_logged hvalid hcreated hlogged operations).mono ?_⟩
  intro ran hran
  rcases hran with ⟨s, h, hc⟩
  constructor
  · apply hc.residents_completes.mono
    intro residents hresidents
    have hkeys : (residents.map fun r => r.1.key) = s.keys := by
      rw [hresidents, CutSequence.keys, <- s.items_zones, <- s.zones.map_residents]
      simp [List.map_map, Function.comp_def]
    rw [h.replay_eq, hkeys]
  constructor
  · intro key
    rw [h.mem_replay_iff, hc.isResident_iff_keys]
  · exact h.consistent

theorem events_determine_residents_credited :
    threeBlocks.Valid ∧
      Completes (create threeBlocks eightBytes) fun created =>
        Completes (created.cache.run [.read ⟨5⟩ ⟨0⟩ [0, 0, 0], .read ⟨5⟩ ⟨0⟩ [0],
            .read ⟨5⟩ ⟨4⟩ [0, 0], .read ⟨5⟩ ⟨6⟩ [0, 0, 0]]) fun ran =>
          ⟨⟨5⟩, ⟨0⟩⟩ ∉ replay (created.events ++ ran.events) ∧
            ⟨⟨5⟩, ⟨3⟩⟩ ∈ replay (created.events ++ ran.events) ∧
            exists past later,
              created.events ++ ran.events = past ++ .evicted ⟨5⟩ ⟨0⟩ 1 :: later ∧
                ⟨⟨5⟩, ⟨0⟩⟩ ∈ replay past ∧ creditsIn past ⟨⟨5⟩, ⟨0⟩⟩ = 1 := by
  refine ⟨threeBlocks_valid, ?_⟩
  have hlog := events_determine_residents threeBlocks_valid eightBytes
    [.read ⟨5⟩ ⟨0⟩ [0, 0, 0], .read ⟨5⟩ ⟨0⟩ [0], .read ⟨5⟩ ⟨4⟩ [0, 0], .read ⟨5⟩ ⟨6⟩ [0, 0, 0]]
  have hrun : Completes (create threeBlocks eightBytes) fun created =>
      Completes (created.cache.run [.read ⟨5⟩ ⟨0⟩ [0, 0, 0], .read ⟨5⟩ ⟨0⟩ [0],
          .read ⟨5⟩ ⟨4⟩ [0, 0], .read ⟨5⟩ ⟨6⟩ [0, 0, 0]]) fun ran =>
        ran.cache.isResident ⟨5⟩ ⟨0⟩ = false ∧ ran.cache.isResident ⟨5⟩ ⟨3⟩ = true ∧
          Event.evicted ⟨5⟩ ⟨0⟩ 1 ∈ created.events ++ ran.events :=
    ⟨_, rfl, _, rfl, rfl, rfl, by decide +kernel⟩
  rcases hrun with ⟨created, hcreate, ran, hran, hgone, hthere, hevicted⟩
  rcases (hlog.of_eq hcreate).of_eq hran with ⟨-, hresident, hconsistent⟩
  refine ⟨created, hcreate, ran, hran, ?_, (hresident ⟨⟨5⟩, ⟨3⟩⟩).mpr hthere, ?_⟩
  · intro hmem
    exact Bool.eq_false_iff.mp hgone ((hresident ⟨⟨5⟩, ⟨0⟩⟩).mp hmem)
  · rcases List.append_of_mem hevicted with ⟨past, later, hsplit⟩
    have hpast := hconsistent past _ later hsplit
    have hcredits : (1 : UInt64).toNat = min (UInt64.size - 1) (creditsIn past ⟨⟨5⟩, ⟨0⟩⟩) :=
      hpast.2
    have hone : (1 : UInt64).toNat = 1 ∧ 1 < UInt64.size - 1 := by decide
    exact ⟨past, later, hsplit, hpast.1, by omega⟩

end Cache
end BlockCache

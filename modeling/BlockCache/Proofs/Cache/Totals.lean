import BlockCache.Proofs.Cache.Fetches
import BlockCache.Proofs.Cache.Keys
import BlockCache.Proofs.Cache.SegmentBalance

/-!
# Totals

The statistics of a cache are totals of its history, and the totals balance: every access
is a hit or a miss, every miss is a fetch that is admitted, finds nothing or fails, and
every block that was admitted is still resident or has left by one of three ways.

The counters are moved at many places, but each moment of a journal and each read moves
them by what it is, so the totals over a run follow by adding up. No total is larger than the
number of bytes that the run asks for, as every piece of a read has a byte.
-/

namespace BlockCache

def total {α : Type} (f : α -> Nat) (l : List α) : Nat :=
  l.foldr (fun a n => f a + n) 0

theorem total_cons {α : Type} (f : α -> Nat) (a : α) (l : List α) :
    total f (a :: l) = f a + total f l := rfl

theorem total_append {α : Type} (f : α -> Nat) (l l' : List α) :
    total f (l ++ l') = total f l + total f l' := by
  induction l with
  | nil => exact (Nat.zero_add _).symm
  | cons a l ih =>
      rw [List.cons_append, total_cons, total_cons, ih, Nat.add_assoc]

theorem total_eq_zero {α : Type} {f : α -> Nat} {l : List α} (h : forall a, a ∈ l -> f a = 0) :
    total f l = 0 := by
  induction l with
  | nil => rfl
  | cons a l ih =>
      rw [total_cons, h a List.mem_cons_self, ih fun b hb => h b (List.mem_cons_of_mem a hb)]

namespace Moment

variable {σ : Type}

def isAccess (m : Moment σ) : Bool :=
  match m.deed with
  | .access _ => true
  | .invalidate _ | .clear => false

def isAdmission (m : Moment σ) : Bool :=
  match m.deed with
  | .access key => m.admits key
  | .invalidate _ | .clear => false

def invalidated (m : Moment σ) : Nat :=
  match m.deed with
  | .invalidate _ => m.before.length - m.after.length
  | .access _ | .clear => 0

def cleared (m : Moment σ) : Nat :=
  match m.deed with
  | .clear => m.before.length
  | .access _ | .invalidate _ => 0

end Moment

def Call.isEmpty (call : Call) : Bool :=
  match call.answer with
  | .ok data => data.isEmpty
  | .error _ => false

theorem Call.isEmpty_eq_false {key : BlockKey} {data : Bytes} (h : data ≠ []) :
    Call.isEmpty ⟨key, .ok data⟩ = false :=
  Bool.eq_false_iff.mpr fun hnil => h (List.isEmpty_iff.mp hnil)

/-- A read that was made: how many bytes were wanted, and what came of it. -/
structure ReadMade where
  wanted : Nat
  result : Except Error Nat

namespace ReadMade

def copied (r : ReadMade) : Nat :=
  match r.result with
  | .ok n => n
  | .error _ => 0

def isShort (r : ReadMade) : Bool :=
  match r.result with
  | .ok n => n < r.wanted
  | .error _ => false

theorem countP_isShort (wanted n : Nat) :
    [ReadMade.mk wanted (.ok n)].countP isShort = if n < wanted then 1 else 0 := by
  simp [isShort]

end ReadMade

/-!
# The course of a run
-/

namespace Cache

def Answer.droppedCount : Answer -> Nat
  | .dropped count => count
  | .reading _ | .rawReading _ | .cleared => 0

structure Turn (σ : Type) where
  cache : Cache σ
  operation : Operation

section Course

variable {σ : Type} [BlockSource σ]

def readMade? (wanted : Nat)
    (read : Except Corruption (Step σ (Reading (Except Error Nat)))) : Option ReadMade :=
  match read with
  | .ok step => some ⟨wanted, step.value.result⟩
  | .error _ => none

namespace Turn

def journal (turn : Turn σ) : List (Moment σ) :=
  turn.cache.journal turn.operation

/-- The read that is made. One with the conventions of a system call makes a read as well. -/
def read? : Turn σ -> Option ReadMade
  | ⟨c, .read fd offset buf⟩ => readMade? buf.length (c.read fd offset buf)
  | ⟨c, .readRaw fd offset size buf⟩ =>
      if buf.length < size then none else readMade? size (c.read fd offset (buf.take size))
  | ⟨_, .invalidate _ _⟩ | ⟨_, .clear⟩ => none

end Turn

def turns (c : Cache σ) : List Operation -> List (Turn σ)
  | [] => []
  | operation :: operations =>
      ⟨c, operation⟩ ::
        match c.perform operation with
        | .ok step => step.cache.turns operations
        | .error _ => []

def runJournal (c : Cache σ) (operations : List Operation) : List (Moment σ) :=
  (c.turns operations).flatMap Turn.journal

def readsMade (c : Cache σ) (operations : List Operation) : List ReadMade :=
  (c.turns operations).filterMap Turn.read?

variable {c : Cache σ} {operation : Operation} {step : Step σ Answer}

theorem turns_cons (h : c.perform operation = .ok step) (operations : List Operation) :
    c.turns (operation :: operations) = ⟨c, operation⟩ :: step.cache.turns operations := by
  rw [turns, h]

theorem runJournal_cons (h : c.perform operation = .ok step) (operations : List Operation) :
    c.runJournal (operation :: operations) =
      c.journal operation ++ step.cache.runJournal operations := by
  rw [runJournal, turns_cons h, List.flatMap_cons]
  rfl

theorem readsMade_cons (h : c.perform operation = .ok step) (operations : List Operation) :
    c.readsMade (operation :: operations) =
      (Turn.read? ⟨c, operation⟩).toList ++ step.cache.readsMade operations := by
  rw [readsMade, turns_cons h, List.filterMap_cons]
  cases Turn.read? ⟨c, operation⟩ <;> rfl

variable {config : Config} {s : Contents config}

theorem run_chronicle (hvalid : config.Valid) (h : Coherent config c s)
    (operations : List Operation) :
    Completes (c.run operations) fun ran =>
      exists s', Chronicle c s (c.runJournal operations) ran.cache s' ∧
        Coherent config ran.cache s' := by
  induction operations generalizing c s with
  | nil => exact Completes.ok ⟨s, .refl, h⟩
  | cons operation operations ih =>
      rcases perform_chronicle hvalid h operation with ⟨first, hperform, s₁, hfirst, h₁⟩
      rw [runJournal_cons hperform]
      apply Completes.bind_eq hperform
      apply (ih h₁).bind
      intro rest hrest
      rcases hrest with ⟨s₂, hrest, h₂⟩
      exact Completes.pure ⟨s₂, hfirst.append hrest, h₂⟩

/-!
# Runs of recording twins
-/

theorem runJournal_unrecorded (c : Cache (Recorded σ)) (operations : List Operation) :
    c.unrecorded.runJournal operations =
      (c.runJournal operations).map Moment.unrecorded := by
  induction operations generalizing c with
  | nil => rfl
  | cons operation operations ih =>
      cases hperform : c.perform operation with
      | error e =>
          have hunrecorded : c.unrecorded.perform operation = .error e := by
            rw [perform_unrecorded, hperform]
            rfl
          simp only [runJournal, turns, hperform, hunrecorded, List.flatMap_cons, List.flatMap_nil,
            List.append_nil]
          exact journal_unrecorded c operation
      | ok step =>
          have hunrecorded : c.unrecorded.perform operation = .ok step.unrecorded := by
            rw [perform_unrecorded, hperform]
            rfl
          rw [runJournal_cons hperform, runJournal_cons hunrecorded, List.map_append,
            journal_unrecorded]
          exact congrArg _ (ih step.cache)

end Course

/-!
# Making room
-/

section Room

variable {σ : Type} {config : Config} {c : Cache σ} {s s' : Contents config}

theorem MadeRoom.blocks {room : Step σ (Option Block)} (hroom : MadeRoom c s room s') :
    s'.items.length + room.cache.stats.evictions = s.items.length + c.stats.evictions := by
  cases hroom with
  | spare hlt => rfl
  | evicted hfull hcandidate hmem =>
      rename_i slot block list moves
      have hlength : (s.remove slot).items.length + 1 = s.items.length :=
        length_without s.nodup (List.mem_map_of_mem hmem)
      show (s.remove slot).items.length + (c.stats.evictions + 1) = _
      omega

theorem MadeRoom.counters {room : Step σ (Option Block)} (hroom : MadeRoom c s room s') :
    room.cache.stats.hits = c.stats.hits ∧ room.cache.stats.misses = c.stats.misses ∧
      room.cache.stats.fetchFailures = c.stats.fetchFailures ∧
      room.cache.stats.shortReads = c.stats.shortReads ∧
      room.cache.stats.bytesRead = c.stats.bytesRead := by
  cases hroom with
  | spare hlt => exact ⟨rfl, rfl, rfl, rfl, rfl⟩
  | evicted hfull hcandidate hmem => exact ⟨rfl, rfl, rfl, rfl, rfl⟩

end Room

/-!
# What the moments of a journal move
-/

section Tally

variable {σ : Type} [BlockSource σ] {config : Config} {c c₁ c₂ : Cache σ}
  {s s' : Contents config} {log log' : List (Moment σ)}

/-- What a journal moves: the counters of accesses, and the number of blocks. -/
structure Tallied (log : List (Moment σ)) (c c₁ : Cache σ) : Prop where
  accesses : c₁.stats.hits + c₁.stats.misses =
    c.stats.hits + c.stats.misses + log.countP Moment.isAccess
  fetches : c₁.stats.misses = c.stats.misses + (log.filterMap Moment.call?).length
  outcomes : c.stats.fetchFailures + (log.filterMap Moment.call?).length =
    c₁.stats.fetchFailures + log.countP Moment.isAdmission +
      (log.filterMap Moment.call?).countP Call.isEmpty
  blocks : c.length + c.stats.evictions + log.countP Moment.isAdmission =
    c₁.length + c₁.stats.evictions + total Moment.invalidated log + total Moment.cleared log

theorem Tallied.refl (c : Cache σ) : Tallied [] c c :=
  ⟨rfl, rfl, rfl, rfl⟩

theorem Tallied.append (h : Tallied log c c₁) (h' : Tallied log' c₁ c₂) :
    Tallied (log ++ log') c c₂ := by
  constructor
  · rw [h'.accesses, h.accesses, List.countP_append, Nat.add_assoc]
  · rw [h'.fetches, h.fetches, List.filterMap_append, List.length_append, Nat.add_assoc]
  · have hfirst := h.outcomes
    have hrest := h'.outcomes
    rw [List.filterMap_append, List.length_append, List.countP_append, List.countP_append]
    omega
  · have hfirst := h.blocks
    have hrest := h'.blocks
    rw [List.countP_append, total_append, total_append]
    omega

theorem Tallied.counting (h : Tallied log c c₁) (n k : Nat) : Tallied log c (c₁.counting n k) :=
  ⟨h.accesses, h.fetches, h.outcomes, h.blocks⟩

theorem tallied_found {key : BlockKey} (hresident : c.isResident key.fd key.index = true)
    (hstats : c₁.stats = { c.stats with hits := c.stats.hits + 1 })
    (hlength : c₁.length = c.length) : Tallied [⟨.access key, c, c₁⟩] c c₁ := by
  have hcalls : [(⟨.access key, c, c₁⟩ : Moment σ)].filterMap Moment.call? = [] := by
    rw [List.filterMap_cons, Moment.call?_access, if_pos hresident]
    rfl
  have hadmissions : [(⟨.access key, c, c₁⟩ : Moment σ)].countP Moment.isAdmission = 0 := by
    simp [Moment.isAdmission, Moment.admits, Moment.fetches, hresident]
  constructor
  · rw [hstats]
    exact Nat.add_right_comm _ _ _
  · rw [hcalls, hstats]
    rfl
  · rw [hcalls, hadmissions, hstats]
    rfl
  · rw [hadmissions, hlength, hstats]
    rfl

theorem tallied_fetched {key : BlockKey} (hmissed : c.isResident key.fd key.index = false)
    (hhits : c₁.stats.hits = c.stats.hits) (hmisses : c₁.stats.misses = c.stats.misses + 1)
    (houtcome : c.stats.fetchFailures + 1 = c₁.stats.fetchFailures +
      (c₁.isResident key.fd key.index).toNat +
        (Call.isEmpty ⟨key, (c.supply key).answer⟩).toNat)
    (hblocks : c.length + c.stats.evictions + (c₁.isResident key.fd key.index).toNat =
      c₁.length + c₁.stats.evictions) :
    Tallied [⟨.access key, c, c₁⟩] c c₁ := by
  have hcalls : [(⟨.access key, c, c₁⟩ : Moment σ)].filterMap Moment.call? =
      [⟨key, (c.supply key).answer⟩] := by
    rw [List.filterMap_cons, Moment.call?_access, hmissed]
    rfl
  have hadmissions : [(⟨.access key, c, c₁⟩ : Moment σ)].countP Moment.isAdmission =
      (c₁.isResident key.fd key.index).toNat := by
    cases hresident : c₁.isResident key.fd key.index <;>
      simp [Moment.isAdmission, Moment.admits, Moment.fetches, hmissed, hresident]
  have hempty : [(⟨key, (c.supply key).answer⟩ : Call)].countP Call.isEmpty =
      (Call.isEmpty ⟨key, (c.supply key).answer⟩).toNat := by
    cases hcase : Call.isEmpty ⟨key, (c.supply key).answer⟩ <;> simp [hcase]
  constructor
  · rw [hhits, hmisses]
    rfl
  · rw [hcalls, hmisses]
    rfl
  · rw [hcalls, hadmissions, hempty]
    exact houtcome
  · rw [hadmissions]
    exact hblocks

theorem tallied_unadmitted {key : BlockKey} (hmissed : c.isResident key.fd key.index = false)
    (hhits : c₁.stats.hits = c.stats.hits) (hmisses : c₁.stats.misses = c.stats.misses + 1)
    (hnothing : c₁.isResident key.fd key.index = false)
    (houtcome : c.stats.fetchFailures + 1 = c₁.stats.fetchFailures +
      (Call.isEmpty ⟨key, (c.supply key).answer⟩).toNat)
    (hblocks : c.length + c.stats.evictions = c₁.length + c₁.stats.evictions) :
    Tallied [⟨.access key, c, c₁⟩] c c₁ := by
  apply tallied_fetched hmissed hhits hmisses
  · rw [hnothing]
    exact houtcome
  · rw [hnothing]
    exact hblocks

theorem Accessed.tallied {key : BlockKey} {step : Step σ (Except Error (Option Slot))}
    (haccessed : Accessed c s key step s') (hc : Coherent config c s)
    (hc' : Coherent config step.cache s') :
    Tallied [⟨.access key, c, step.cache⟩] c step.cache := by
  have hmissed : Absent s key -> c.isResident key.fd key.index = false :=
    hc.isResident_eq_false_iff.mpr
  have hnothing : Absent s' key -> step.cache.isResident key.fd key.index = false :=
    hc'.isResident_eq_false_iff.mpr
  have hthere : (exists slot block, (slot, block) ∈ s'.items ∧ block.key = key) ->
      step.cache.isResident key.fd key.index = true := hc'.isResident_iff.mpr
  cases haccessed with
  | hit hmem hkey =>
      rename_i slot block list moves
      refine tallied_found (hc.isResident_iff.mpr ⟨slot, block, hmem, hkey⟩) rfl ?_
      have hlength := (s.keys_touch_perm slot).length_eq
      rw [CutSequence.length_keys, CutSequence.length_keys] at hlength
      rw [hc'.length_eq, hc.length_eq, hlength]
  | failed habsent hanswer =>
      refine tallied_unadmitted (hmissed habsent) rfl rfl (hnothing habsent) ?_ rfl
      rw [hanswer]
      rfl
  | oversized habsent hanswer hsize =>
      refine tallied_unadmitted (hmissed habsent) rfl rfl (hnothing habsent) ?_ rfl
      rw [hanswer, Call.isEmpty_eq_false (List.ne_nil_of_length_pos (Nat.zero_lt_of_lt hsize))]
      rfl
  | pastEnd habsent hanswer =>
      refine tallied_unadmitted (hmissed habsent) rfl rfl (hnothing habsent) ?_ rfl
      rw [hanswer]
      rfl
  | admitted habsent hanswer hstorable hroom fresh =>
      rename_i data room s₁ slot list moves
      rcases hroom.counters with ⟨hhits, hmisses, hfailures, -, -⟩
      have hresident := hthere ⟨slot, _, List.mem_cons_self, rfl⟩
      refine tallied_fetched (hmissed habsent) hhits hmisses ?_ ?_
      · rw [hresident, hanswer, Call.isEmpty_eq_false hstorable.1]
        exact congrArg (· + 1) hfailures.symm
      · have hblocks := hroom.blocks
        rw [hresident, hc'.length_eq, hc.length_eq]
        show s.items.length + (c.asked key).stats.evictions + 1 =
          s₁.items.length + 1 + room.cache.stats.evictions
        omega

theorem Passes.tallied {m : Moment σ} (hpasses : Passes m s s') (hc : Coherent config m.before s)
    (hc' : Coherent config m.after s') : Tallied [m] m.before m.after := by
  cases hpasses with
  | accessed haccessed => exact haccessed.tallied hc hc'
  | invalidated hfile =>
      rename_i c fd slots list index
      refine ⟨rfl, rfl, rfl, ?_⟩
      have hle : (s.removeAll slots).items.length <= s.items.length := by
        rw [CutSequence.items_removeAll]
        exact List.length_filter_le _ _
      have hlength : c.length = s.items.length := hc.length_eq
      have hlength' : Cache.length { c with list := list, index := index } =
        (s.removeAll slots).items.length := hc'.length_eq
      show c.length + c.stats.evictions + 0 = Cache.length { c with list := list, index := index } +
        c.stats.evictions + (c.length - Cache.length { c with list := list, index := index } + 0) +
          0
      omega
  | cleared =>
      rename_i c list index
      refine ⟨rfl, rfl, rfl, ?_⟩
      have hlength' : Cache.length { c with list := list, index := index } = 0 := hc'.length_eq
      show c.length + c.stats.evictions + 0 = Cache.length { c with list := list, index := index } +
        c.stats.evictions + 0 + (c.length + 0)
      omega

theorem Chronicle.tallied (h : Chronicle c s log c₁ s') : Tallied log c c₁ := by
  induction h with
  | refl => exact .refl c
  | passed _ hbefore hpasses hafter ih => exact ih.append (hpasses.tallied hbefore hafter)
  | counted _ ih => exact ih.counting _ _

end Tally

/-!
# What reads move
-/

section Reads

variable {σ : Type} {config : Config} {c c₁ c₂ : Cache σ} {s s' : Contents config}

structure Totalled (reads : List ReadMade) (c c₁ : Cache σ) : Prop where
  short : c₁.stats.shortReads = c.stats.shortReads + reads.countP ReadMade.isShort
  bytes : c₁.stats.bytesRead = c.stats.bytesRead + total ReadMade.copied reads

theorem Totalled.refl (c : Cache σ) : Totalled [] c c :=
  ⟨rfl, rfl⟩

theorem Totalled.append {reads reads' : List ReadMade} (h : Totalled reads c c₁)
    (h' : Totalled reads' c₁ c₂) : Totalled (reads ++ reads') c c₂ := by
  constructor
  · rw [h'.short, h.short, List.countP_append, Nat.add_assoc]
  · rw [h'.bytes, h.bytes, total_append, Nat.add_assoc]

variable [BlockSource σ]

theorem Accessed.reads_kept {key : BlockKey} {step : Step σ (Except Error (Option Slot))}
    (h : Accessed c s key step s') :
    step.cache.stats.shortReads = c.stats.shortReads ∧
      step.cache.stats.bytesRead = c.stats.bytesRead := by
  cases h with
  | hit | failed | oversized | pastEnd => exact ⟨rfl, rfl⟩
  | admitted habsent hanswer hstorable hroom fresh => exact hroom.counters.2.2.2

theorem ReadPieces.reads_counted {fd : FileDescriptor} {pieces : List Piece} {buf : Bytes}
    {step : Step σ (Reading (Except Error Nat))} {origin stop pos : Nat}
    (hread : ReadPieces fd pieces c s buf step s')
    (htiled : Tiled config.blockSize.toNat origin stop pos pieces) :
    step.cache.stats.shortReads = c.stats.shortReads +
        [ReadMade.mk (stop - pos) step.value.result].countP ReadMade.isShort ∧
      step.cache.stats.bytesRead = c.stats.bytesRead := by
  induction hread generalizing pos with
  | done =>
      have hpos : pos = stop := htiled
      rw [ReadMade.countP_isShort, hpos, Nat.sub_self, if_neg (Nat.lt_irrefl 0)]
      exact ⟨rfl, rfl⟩
  | failed haccessed _ => exact haccessed.reads_kept
  | pastEnd haccessed _ =>
      rcases haccessed.reads_kept with ⟨hshort, hbytes⟩
      rcases htiled with ⟨hmore, -⟩
      have hwanted : 0 < stop - pos := Nat.sub_pos_of_lt hmore
      rw [ReadMade.countP_isShort, if_pos hwanted]
      exact ⟨congrArg (· + 1) hshort, hbytes⟩
  | short haccessed hvalue hmem hkey hless =>
      rename_i piece rest c s s' buf accessed slot block
      rcases haccessed.reads_kept with ⟨hshort, hbytes⟩
      rcases htiled with ⟨-, -, -, hlen, -⟩
      have hwanted : piece.available block.data < stop - pos := by omega
      rw [ReadMade.countP_isShort, if_pos hwanted]
      exact ⟨congrArg (· + 1) hshort, hbytes⟩
  | full haccessed hvalue hmem hkey hall hmore ih =>
      rename_i piece rest c s s' s'' buf accessed slot block more
      rcases haccessed.reads_kept with ⟨hshort, hbytes⟩
      rcases htiled with ⟨-, -, -, hlen, -, hrest⟩
      rcases ih hrest with ⟨hshort', hbytes'⟩
      rw [hshort', hbytes', hshort, hbytes]
      constructor
      · cases more.value.result with
        | error e => rfl
        | ok n =>
            have hless : n < stop - (pos + piece.len) <-> piece.len + n < stop - pos := by omega
            simp only [Except.map, ReadMade.countP_isShort, hless]
      · rfl

theorem ReadDone.totalled {fd : FileDescriptor} {offset : ByteOffset} {buf : Bytes}
    {step : Step σ (Reading (Except Error Nat))} (h : ReadDone c s fd offset buf step s') :
    Totalled [⟨buf.length, step.value.result⟩] c step.cache := by
  cases h with
  | refused _ => exact ⟨rfl, rfl⟩
  | empty hnil => exact ⟨by simp [hnil, ReadMade.isShort], rfl⟩
  | failed htiled hpieces hresult =>
      rcases hpieces.reads_counted htiled with ⟨hshort, hbytes⟩
      rw [Nat.add_sub_cancel_left] at hshort
      constructor
      · exact hshort
      · rw [hbytes, hresult]
        rfl
  | finished htiled hpieces hresult =>
      rcases hpieces.reads_counted htiled with ⟨hshort, hbytes⟩
      rw [Nat.add_sub_cancel_left] at hshort
      constructor
      · exact hshort
      · rw [hresult, <- hbytes]
        rfl

theorem read_totalled (hvalid : config.Valid) (hc : Coherent config c s) (fd : FileDescriptor)
    (offset : ByteOffset) (buf : Bytes) :
    Completes (c.read fd offset buf) fun step =>
      Totalled (readMade? buf.length (c.read fd offset buf)).toList c step.cache := by
  rcases read_completes hvalid hc fd offset buf with ⟨step, hstep, s', hread, -⟩
  rw [hstep]
  exact Completes.ok hread.totalled

theorem perform_totalled (hvalid : config.Valid) (hc : Coherent config c s)
    (operation : Operation) :
    Completes (c.perform operation) fun step =>
      Totalled (Turn.read? ⟨c, operation⟩).toList c step.cache := by
  cases operation with
  | read fd offset buf => exact (read_totalled hvalid hc fd offset buf).map fun _ hstep => hstep
  | readRaw fd offset size buf =>
      rw [perform, Turn.read?]
      rcases Nat.lt_or_ge buf.length size with hsize | hsize
      · rw [readRaw_of_lt hsize, if_pos hsize]
        exact Completes.ok (.refl c)
      · have hread := read_totalled hvalid hc fd offset (buf.take size)
        rw [List.length_take, Nat.min_eq_left hsize] at hread
        rw [readRaw_of_le hsize, if_neg (Nat.not_lt.mpr hsize)]
        apply Completes.map (hread.map _)
        · intro _ hstep
          exact hstep
        · intro _ hstep
          exact hstep
  | invalidate fd order =>
      apply (invalidate_completes hc fd order).map
      intro step hstep
      rcases hstep with ⟨s', hdropped, -⟩
      cases hdropped with
      | absent _ => exact .refl c
      | dropped _ _ => exact ⟨rfl, rfl⟩
  | clear => exact Completes.ok ⟨rfl, rfl⟩

/-!
# What callers are told
-/

theorem isAccess_of_mem_readJournal {fd : FileDescriptor} {pieces : List Piece} {m : Moment σ}
    (h : m ∈ readJournal fd pieces c) : m.isAccess = true := by
  induction pieces generalizing c with
  | nil => cases h
  | cons piece rest ih =>
      rw [readJournal] at h
      cases haccess : c.access fd piece.index with
      | error e =>
          rw [haccess] at h
          cases h
      | ok accessed =>
          simp only [haccess, List.mem_cons] at h
          rcases h with rfl | hrest
          · rfl
          · by_cases hall : piece.available (c.offered ⟨fd, piece.index⟩) = piece.len
            · rw [if_pos hall] at hrest
              exact ih hrest
            · rw [if_neg hall] at hrest
              cases hrest

theorem total_invalidated_readJournal (fd : FileDescriptor) (pieces : List Piece) (c : Cache σ) :
    total Moment.invalidated (readJournal fd pieces c) = 0 := by
  apply total_eq_zero
  intro m hm
  have haccess := isAccess_of_mem_readJournal hm
  cases hdeed : m.deed <;> simp_all [Moment.isAccess, Moment.invalidated]

theorem perform_dropped (hvalid : config.Valid) (hc : Coherent config c s)
    (operation : Operation) :
    Completes (c.perform operation) fun step =>
      step.value.droppedCount = total Moment.invalidated (c.journal operation) := by
  cases operation with
  | read fd offset buf =>
      apply (read_completes hvalid hc fd offset buf).map
      intro step _
      exact (total_invalidated_readJournal fd _ c).symm
  | readRaw fd offset size buf =>
      apply (readRaw_completes hvalid hc fd offset size buf).map
      intro step _
      rw [journal]
      rcases Nat.lt_or_ge buf.length size with hsize | hsize
      · rw [if_pos hsize]
        rfl
      · rw [if_neg (Nat.not_lt.mpr hsize)]
        exact (total_invalidated_readJournal fd _ c).symm
  | invalidate fd order =>
      rcases invalidate_completes hc fd order with ⟨step, hstep, s', hdropped, hc'⟩
      rw [perform, journal, hstep]
      apply Completes.ok
      show step.value = c.length - step.cache.length + 0
      rw [hc.length_eq, hc'.length_eq, Nat.add_zero]
      exact Nat.eq_sub_of_add_eq hdropped.count_eq
  | clear => exact Completes.ok rfl

theorem run_totalled (hvalid : config.Valid) (hc : Coherent config c s)
    (operations : List Operation) :
    Completes (c.run operations) fun ran =>
      Totalled (c.readsMade operations) c ran.cache ∧
        total Answer.droppedCount ran.value =
          total Moment.invalidated (c.runJournal operations) := by
  induction operations generalizing c s with
  | nil => exact Completes.ok ⟨.refl c, rfl⟩
  | cons operation operations ih =>
      rcases perform_completes hvalid hc operation with ⟨first, hperform, s₁, -, hc₁⟩
      have hreads := (perform_totalled hvalid hc operation).of_eq hperform
      have hdrops := (perform_dropped hvalid hc operation).of_eq hperform
      rw [readsMade_cons hperform, runJournal_cons hperform, total_append]
      apply Completes.bind_eq hperform
      apply (ih hc₁).bind
      intro rest hrest
      rcases hrest with ⟨hreads', hdrops'⟩
      apply Completes.pure
      constructor
      · exact hreads.append hreads'
      · rw [<- hdrops, <- hdrops']
        rfl

end Reads

/-!
# What operations ask for
-/

section Wanted

variable {σ : Type} {config : Config} {c : Cache σ} {s s' : Contents config}

def Operation.wanted : Operation -> Nat
  | .read _ _ buf => buf.length
  | .readRaw _ _ size buf => if buf.length < size then 0 else size
  | .invalidate _ _ | .clear => 0

/-- No more accesses, short reads and bytes than `n`. -/
structure Allowed (n : Nat) (log : List (Moment σ)) (reads : List ReadMade) : Prop where
  accesses : log.countP Moment.isAccess <= n
  short : reads.countP ReadMade.isShort <= n
  copied : total ReadMade.copied reads <= n

theorem Allowed.nil (n : Nat) : Allowed (σ := σ) n [] [] :=
  ⟨Nat.zero_le n, Nat.zero_le n, Nat.zero_le n⟩

theorem Allowed.append {n n' : Nat} {log log' : List (Moment σ)} {reads reads' : List ReadMade}
    (h : Allowed n log reads) (h' : Allowed n' log' reads') :
    Allowed (n + n') (log ++ log') (reads ++ reads') := by
  constructor
  · rw [List.countP_append]
    exact Nat.add_le_add h.accesses h'.accesses
  · rw [List.countP_append]
    exact Nat.add_le_add h.short h'.short
  · rw [total_append]
    exact Nat.add_le_add h.copied h'.copied

theorem length_piecesOf_le (hvalid : config.Valid) (hc : Coherent config c s)
    (offset : ByteOffset) (len : Nat) : (c.piecesOf offset len).length <= len := by
  rw [piecesOf, hc.config_eq]
  rcases Span.ofRange_cases hvalid.blockSize_pos offset len with
    ⟨-, hrange⟩ | ⟨-, -, span, hrange, hoffset, hstop, hsize⟩ | ⟨-, -, hrange⟩
  · rw [hrange]
    exact Nat.zero_le len
  · have hle := span.tiled_pieces.length_le (hsize ▸ hvalid.blockSize_pos)
    rw [hoffset, hstop, Nat.add_sub_cancel_left] at hle
    rw [hrange]
    exact hle
  · rw [hrange]
    exact Nat.zero_le len

variable [BlockSource σ]

theorem ReadPieces.copied_le {fd : FileDescriptor} {pieces : List Piece} {buf : Bytes}
    {step : Step σ (Reading (Except Error Nat))} {origin stop pos n : Nat}
    (h : ReadPieces fd pieces c s buf step s')
    (htiled : Tiled config.blockSize.toNat origin stop pos pieces)
    (hresult : step.value.result = .ok n) : n <= stop - pos := by
  induction h generalizing pos n with
  | done | pastEnd =>
      cases hresult
      exact Nat.zero_le _
  | failed haccessed hvalue => cases hresult
  | short haccessed hvalue hmem hkey hshort =>
      cases hresult
      rcases htiled with ⟨-, -, -, hlen, -⟩
      omega
  | full haccessed hvalue hmem hkey hall hmore ih =>
      rcases exists_of_map_eq_ok hresult with ⟨m, hm, rfl⟩
      rcases htiled with ⟨-, -, -, hlen, -, hrest⟩
      have hle := ih hrest hm
      omega

theorem ReadDone.copied_le {fd : FileDescriptor} {offset : ByteOffset} {buf : Bytes}
    {step : Step σ (Reading (Except Error Nat))} {n : Nat}
    (h : ReadDone c s fd offset buf step s') (hresult : step.value.result = .ok n) :
    n <= buf.length := by
  cases h with
  | refused hover => cases hresult
  | empty hnil =>
      cases hresult
      exact Nat.zero_le _
  | failed htiled hpieces hfailed =>
      rw [hfailed] at hresult
      cases hresult
  | finished htiled hpieces hfinished =>
      have hle := hpieces.copied_le htiled hresult
      omega

theorem read_allowed (hvalid : config.Valid) (hc : Coherent config c s) (fd : FileDescriptor)
    (offset : ByteOffset) (buf : Bytes) :
    Allowed buf.length (readJournal fd (c.piecesOf offset buf.length) c)
      (readMade? buf.length (c.read fd offset buf)).toList := by
  rcases read_completes hvalid hc fd offset buf with ⟨step, hstep, s', hread, -⟩
  rw [hstep]
  constructor
  · have hpaced : Paced fd (c.piecesOf offset buf.length) c
        (readJournal fd (c.piecesOf offset buf.length) c) := readJournal_paced hvalid hc _
    calc (readJournal fd (c.piecesOf offset buf.length) c).countP Moment.isAccess
      _ <= (readJournal fd (c.piecesOf offset buf.length) c).length := List.countP_le_length
      _ <= (c.piecesOf offset buf.length).length := hpaced.length_le
      _ <= buf.length := length_piecesOf_le hvalid hc offset buf.length
  · cases hresult : step.value.result with
    | error e => simp [readMade?, ReadMade.isShort, hresult]
    | ok n =>
        simp only [readMade?, hresult, Option.toList_some, ReadMade.countP_isShort]
        split <;> omega
  · cases hresult : step.value.result with
    | error e => simp [readMade?, total, ReadMade.copied, hresult]
    | ok n =>
        simp only [readMade?, hresult, Option.toList_some, total_cons, ReadMade.copied]
        exact hread.copied_le hresult

theorem perform_allowed (hvalid : config.Valid) (hc : Coherent config c s)
    (operation : Operation) :
    Allowed operation.wanted (c.journal operation) (Turn.read? ⟨c, operation⟩).toList := by
  cases operation with
  | read fd offset buf => exact read_allowed hvalid hc fd offset buf
  | readRaw fd offset size buf =>
      rw [Operation.wanted, journal, Turn.read?]
      rcases Nat.lt_or_ge buf.length size with hsize | hsize
      · rw [if_pos hsize, if_pos hsize, if_pos hsize]
        exact .nil 0
      · have hread := read_allowed hvalid hc fd offset (buf.take size)
        rw [List.length_take, Nat.min_eq_left hsize] at hread
        rw [if_neg (Nat.not_lt.mpr hsize), if_neg (Nat.not_lt.mpr hsize),
          if_neg (Nat.not_lt.mpr hsize), List.length_take, Nat.min_eq_left hsize]
        exact hread
  | invalidate fd order =>
      rw [journal]
      cases c.invalidate fd order <;> exact ⟨Nat.le_refl 0, Nat.le_refl 0, Nat.le_refl 0⟩
  | clear => exact ⟨Nat.le_refl 0, Nat.le_refl 0, Nat.le_refl 0⟩

theorem run_allowed (hvalid : config.Valid) (hc : Coherent config c s)
    (operations : List Operation) :
    Allowed (total Operation.wanted operations) (c.runJournal operations)
      (c.readsMade operations) := by
  induction operations generalizing c s with
  | nil => exact .nil 0
  | cons operation operations ih =>
      rcases perform_completes hvalid hc operation with ⟨first, hperform, s₁, -, hc₁⟩
      rw [total_cons, runJournal_cons hperform, readsMade_cons hperform]
      exact (perform_allowed hvalid hc operation).append (ih hc₁)

end Wanted

/-- No counter is larger than `n`. -/
structure StatsAtMost (n : Nat) (stats : Stats) : Prop where
  accesses : stats.hits + stats.misses <= n
  evictions : stats.evictions <= n
  fetchFailures : stats.fetchFailures <= n
  shortReads : stats.shortReads <= n
  bytesRead : stats.bytesRead <= n

/-!
# Conservation
-/

section Conservation

variable {σ : Type} {config : Config}

theorem create_counters {source : σ} {created : Step σ Unit}
    (h : create config source = .ok created) :
    created.cache.stats = {} ∧ created.cache.length = 0 := by
  rw [create, Config.validate_eq_ok_iff.mpr (valid_of_create h)] at h
  cases h
  exact ⟨rfl, rfl⟩

/--
The totals of a run, from what it did block by block, the reads it made, the fetches that
its source has seen and the answers it gave.
-/
structure Conserved (log : List (Moment σ)) (reads : List ReadMade) (calls : List Call)
    (answers : List Answer) (c : Cache σ) : Prop where
  accesses : c.stats.hits + c.stats.misses = log.countP Moment.isAccess
  fetches : c.stats.misses = calls.length
  outcomes : c.stats.misses = log.countP Moment.isAdmission + calls.countP Call.isEmpty +
    c.stats.fetchFailures
  blocks : log.countP Moment.isAdmission = c.length + c.stats.evictions +
    total Answer.droppedCount answers + total Moment.cleared log
  shortReads : c.stats.shortReads = reads.countP ReadMade.isShort
  bytesRead : c.stats.bytesRead = total ReadMade.copied reads

theorem Conserved.atMost {n : Nat} {log : List (Moment σ)} {reads : List ReadMade}
    {calls : List Call} {answers : List Answer} {c : Cache σ}
    (h : Conserved log reads calls answers c) (hallowed : Allowed n log reads) :
    StatsAtMost n c.stats := by
  have haccesses := h.accesses
  have houtcomes := h.outcomes
  have hblocks := h.blocks
  have hle := hallowed.accesses
  refine ⟨by omega, by omega, by omega, ?_, ?_⟩
  · rw [h.shortReads]
    exact hallowed.short
  · rw [h.bytesRead]
    exact hallowed.copied

variable [BlockSource σ]

theorem run_twin_completes {c : Cache σ} {s : Contents config} (hvalid : config.Valid)
    (h : Coherent config c s) (operations : List Operation) :
    Completes (c.recorded.run operations) fun twin =>
      c.run operations = .ok twin.unrecorded ∧ twin.cache.source.calls =
        ((c.runJournal operations).filterMap Moment.call?).reverse := by
  rcases run_chronicle hvalid h.recorded operations with ⟨twin, htwin, s', hrecording, -⟩
  have hsame := run_unrecorded c.recorded operations
  have hjournal := runJournal_unrecorded c.recorded operations
  rw [unrecorded_recorded] at hsame hjournal
  refine ⟨twin, htwin, ?_, ?_⟩
  · rw [hsame, htwin]
    rfl
  · rw [hrecording.calls, hjournal, filterMap_call?_unrecorded]
    exact List.append_nil _

/--
The totals balance after every run, and the fetches that a recording twin of the cache has
seen are its misses. No counter is larger than the number of bytes that the run asks for, so
that words hold all of them as long as fewer than 2 ^ 64 bytes are asked for.
-/
theorem run_conserved (hvalid : config.Valid) (source : σ) (operations : List Operation) :
    Completes (create config source) fun created =>
      Completes (created.cache.run operations) fun ran =>
        Completes (created.cache.recorded.run operations) fun twin =>
          twin.unrecorded = ran ∧
            Conserved (created.cache.runJournal operations) (created.cache.readsMade operations)
              twin.cache.source.calls ran.value ran.cache ∧
            StatsAtMost (total Operation.wanted operations) ran.cache.stats := by
  rcases create_completes hvalid source with ⟨created, hcreate, -, hcreated⟩
  rcases create_counters hcreate with ⟨hstats, hlength⟩
  rcases run_chronicle hvalid hcreated operations with ⟨ran, hran, s, hchronicle, -⟩
  rcases (run_totalled hvalid hcreated operations).of_eq hran with ⟨hreads, hdrops⟩
  rcases run_twin_completes hvalid hcreated operations with ⟨twin, htwin, hsame, hcalls⟩
  rw [hran] at hsame
  have htally := hchronicle.tallied
  suffices hconserved : Conserved (created.cache.runJournal operations)
      (created.cache.readsMade operations) twin.cache.source.calls ran.value ran.cache from
    ⟨created, hcreate, ran, hran, twin, htwin, (Except.ok.inj hsame).symm, hconserved,
      hconserved.atMost (run_allowed hvalid hcreated operations)⟩
  have hfetches : ran.cache.stats.misses = twin.cache.source.calls.length := by
    rw [hcalls, List.length_reverse, htally.fetches, hstats]
    exact Nat.zero_add _
  have hempty : twin.cache.source.calls.countP Call.isEmpty =
      ((created.cache.runJournal operations).filterMap Moment.call?).countP Call.isEmpty := by
    rw [hcalls, List.countP_reverse]
  constructor
  · rw [htally.accesses, hstats]
    exact Nat.zero_add _
  · exact hfetches
  · have houtcomes := htally.outcomes
    rw [hstats] at houtcomes
    dsimp only at houtcomes
    rw [hempty, hfetches, hcalls, List.length_reverse]
    omega
  · have hblocks := htally.blocks
    rw [hstats, hlength] at hblocks
    dsimp only at hblocks
    rw [hdrops]
    omega
  · rw [hreads.short, hstats]
    exact Nat.zero_add _
  · rw [hreads.bytes, hstats]
    exact Nat.zero_add _

def sevenOperations : List Operation := [
  .read ⟨5⟩ ⟨0⟩ [0, 0, 0],
  .read ⟨5⟩ ⟨0⟩ [0],
  .read ⟨5⟩ ⟨4⟩ [0, 0],
  .read ⟨5⟩ ⟨2⟩ [0],
  .read ⟨5⟩ ⟨6⟩ [0, 0, 0],
  .read ⟨6⟩ ⟨0⟩ [0],
  .invalidate ⟨5⟩ .reversed]

theorem run_conserved_seven_operations :
    threeBlocks.Valid ∧
      Completes (create threeBlocks eightBytes) fun created =>
        Completes (created.cache.run sevenOperations) fun ran =>
          Completes (created.cache.recorded.run sevenOperations) fun twin =>
            ran.cache.stats.fetchFailures = 1 ∧ ran.cache.stats.evictions = 1 ∧
              (created.cache.runJournal sevenOperations).countP Moment.isAccess = 8 ∧
              twin.cache.source.calls.length = 6 ∧
              (created.cache.readsMade sevenOperations).countP ReadMade.isShort = 1 ∧
              total ReadMade.copied (created.cache.readsMade sevenOperations) = 9 := by
  refine ⟨threeBlocks_valid, ?_⟩
  have hconserved := run_conserved threeBlocks_valid eightBytes sevenOperations
  have hrun : Completes (create threeBlocks eightBytes) fun created =>
      Completes (created.cache.run sevenOperations) fun ran =>
        ran.cache.stats =
          { hits := 2, misses := 6, evictions := 1, bytesRead := 9, fetchFailures := 1,
            shortReads := 1 } :=
    ⟨_, rfl, _, rfl, by decide +kernel⟩
  rcases hrun with ⟨created, hcreate, ran, hran, hstats⟩
  rcases (hconserved.of_eq hcreate).of_eq hran with ⟨twin, htwin, -, h, -⟩
  refine ⟨created, hcreate, ran, hran, twin, htwin, ?_⟩
  dsimp only
  rw [<- h.accesses, <- h.fetches, <- h.shortReads, <- h.bytesRead, hstats]
  exact ⟨rfl, rfl, rfl, rfl, rfl, rfl⟩

end Conservation

end Cache
end BlockCache

import BlockCache.Proofs.Cache.Runs

/-!
# Journals

A journal tells what happens to the blocks of a cache, moment by moment: a block is
accessed, the blocks of one file are dropped, or all blocks are. A read takes as many
moments as it makes accesses, so a journal also shows the caches in the middle of a read.

Nothing in a journal is taken from the events that a cache reports. What a moment does to
a block is seen from the caches before and after it.
-/

namespace BlockCache

inductive Deed where
  | access (key : BlockKey)
  | invalidate (fd : FileDescriptor)
  | clear
deriving DecidableEq, Repr

/-- Something done to the blocks of a cache, and the cache before and after it. -/
structure Moment (σ : Type) where
  deed : Deed
  before : Cache σ
  after : Cache σ

namespace Moment

variable {σ : Type}

def hits (m : Moment σ) (key : BlockKey) : Bool :=
  m.deed = .access key && m.before.isResident key.fd key.index

def fetches (m : Moment σ) (key : BlockKey) : Bool :=
  m.deed = .access key && !m.before.isResident key.fd key.index

def admits (m : Moment σ) (key : BlockKey) : Bool :=
  m.fetches key && m.after.isResident key.fd key.index

def serves (m : Moment σ) (key : BlockKey) : Bool :=
  m.hits key || m.admits key

def credits (m : Moment σ) (key : BlockKey) : Bool :=
  m.deed = .access key &&
    (m.before.segment? key.fd key.index = some .middle ||
      m.before.segment? key.fd key.index = some .old)

end Moment

namespace Cache

variable {σ : Type} [BlockSource σ]

/--
The bytes of a block as an access would find or fetch them. There are none if the fetch
fails or gives more than a block.
-/
def offered (c : Cache σ) (key : BlockKey) : Bytes :=
  match c.slot? key.fd key.index with
  | some slot => ((c.list.block? slot).map Block.data).getD []
  | none =>
      match (c.supply key).answer with
      | .ok data => if data.length <= c.config.blockSize.toNat then data else []
      | .error _ => []

/-- The accesses of a read, up to the first block that cannot fill its piece. -/
def readJournal (fd : FileDescriptor) : List Piece -> Cache σ -> List (Moment σ)
  | [], _ => []
  | piece :: rest, c =>
      match c.access fd piece.index with
      | .error _ => []
      | .ok accessed =>
          ⟨.access ⟨fd, piece.index⟩, c, accessed.cache⟩ ::
            if piece.available (c.offered ⟨fd, piece.index⟩) = piece.len then
              readJournal fd rest accessed.cache
            else
              []

def piecesOf (c : Cache σ) (offset : ByteOffset) (len : Nat) : List Piece :=
  match Span.ofRange offset len c.config.blockSize with
  | .ok (some span) => span.pieces
  | _ => []

def journal (c : Cache σ) : Operation -> List (Moment σ)
  | .read fd offset buf => readJournal fd (c.piecesOf offset buf.length) c
  | .readRaw fd offset size buf =>
      if buf.length < size then [] else readJournal fd (c.piecesOf offset (buf.take size).length) c
  | .invalidate fd order =>
      match c.invalidate fd order with
      | .ok step => [⟨.invalidate fd, c, step.cache⟩]
      | .error _ => []
  | .clear => [⟨.clear, c, c.clear.cache⟩]

/-- What accesses and operations make of a cache, with the moments they take. -/
inductive Trail (c : Cache σ) : List (Moment σ) -> Cache σ -> Prop where
  | refl : Trail c [] c
  | accessed {log : List (Moment σ)} {c₁ : Cache σ} {key : BlockKey}
      {step : Step σ (Except Error (Option Slot))} :
      Trail c log c₁ -> c₁.access key.fd key.index = .ok step ->
      Trail c (log ++ [⟨.access key, c₁, step.cache⟩]) step.cache
  | performed {log : List (Moment σ)} {c₁ : Cache σ} {operation : Operation}
      {step : Step σ Answer} :
      Trail c log c₁ -> c₁.perform operation = .ok step ->
      Trail c (log ++ c₁.journal operation) step.cache

/-- The caches that accesses and operations lead to from an empty one, each with its journal. -/
inductive ReachedBy (config : Config) (log : List (Moment σ)) (c : Cache σ) : Prop where
  | created {source : σ} {step : Step σ Unit} :
      create config source = .ok step -> Trail step.cache log c -> ReachedBy config log c

/-!
# Chronicles

A chronicle is a journal together with the blocks at every moment.
-/

variable {config : Config}

/-- What a moment makes of the blocks. -/
inductive Passes : Moment σ -> Contents config -> Contents config -> Prop where
  | accessed {c : Cache σ} {s s' : Contents config} {key : BlockKey}
      {step : Step σ (Except Error (Option Slot))} :
      Accessed c s key step s' -> Passes ⟨.access key, c, step.cache⟩ s s'
  | invalidated {c : Cache σ} {s : Contents config} {fd : FileDescriptor} {slots : List Slot}
      {list : RecencyList} {index : Index} :
      (forall held, held ∈ s.holdings -> (held.slot ∈ slots <-> held.key.fd = fd)) ->
      Passes ⟨.invalidate fd, c, { c with list := list, index := index }⟩ s (s.removeAll slots)
  | cleared {c : Cache σ} {s : Contents config} {list : RecencyList} {index : Index} :
      Passes ⟨.clear, c, { c with list := list, index := index }⟩ s .empty

def counting (c : Cache σ) (n k : Nat) : Cache σ :=
  { c with stats := { c.stats with
      shortReads := c.stats.shortReads + n
      bytesRead := c.stats.bytesRead + k } }

inductive Chronicle (c : Cache σ) (s : Contents config) :
    List (Moment σ) -> Cache σ -> Contents config -> Prop where
  | refl : Chronicle c s [] c s
  | passed {log : List (Moment σ)} {m : Moment σ} {s₁ s₂ : Contents config} :
      Chronicle c s log m.before s₁ -> Coherent config m.before s₁ -> Passes m s₁ s₂ ->
      Coherent config m.after s₂ -> Chronicle c s (log ++ [m]) m.after s₂
  | counted {log : List (Moment σ)} {c₁ : Cache σ} {s₁ : Contents config} {n k : Nat} :
      Chronicle c s log c₁ s₁ -> Chronicle c s log (c₁.counting n k) s₁

variable {c c₁ c₂ : Cache σ} {s s₁ s₂ : Contents config} {log log' : List (Moment σ)}

theorem Chronicle.append (h : Chronicle c s log c₁ s₁) (h' : Chronicle c₁ s₁ log' c₂ s₂) :
    Chronicle c s (log ++ log') c₂ s₂ := by
  induction h' with
  | refl =>
      rw [List.append_nil]
      exact h
  | passed _ hbefore hpasses hafter ih =>
      rw [<- List.append_assoc]
      exact ih.passed hbefore hpasses hafter
  | counted _ ih => exact ih.counted

/-- A chronicle can be cut anywhere; the cache at the cut is known up to its statistics. -/
theorem Chronicle.split (h : Chronicle c s (log ++ log') c₂ s₂) :
    exists c₁ s₁, Chronicle c s log c₁ s₁ ∧ Chronicle c₁ s₁ log' c₂ s₂ := by
  generalize hwhole : log ++ log' = whole at h
  induction h generalizing log' with
  | refl =>
      rcases List.append_eq_nil_iff.mp hwhole with ⟨rfl, rfl⟩
      exact ⟨c, s, .refl, .refl⟩
  | passed hpast hbefore hpasses hafter ih =>
      rename_i past m s₁ s₂
      rcases List.eq_nil_or_concat log' with rfl | ⟨init, last, rfl⟩
      · rw [List.append_nil] at hwhole
        rw [hwhole]
        exact ⟨_, _, hpast.passed hbefore hpasses hafter, .refl⟩
      · rw [List.concat_eq_append, <- List.append_assoc] at hwhole
        rcases List.append_inj' hwhole rfl with ⟨hinit, hlast⟩
        cases hlast
        rcases ih hinit with ⟨c₁, s₁, hfirst, hrest⟩
        rw [List.concat_eq_append]
        exact ⟨c₁, s₁, hfirst, hrest.passed hbefore hpasses hafter⟩
  | counted _ ih =>
      rcases ih hwhole with ⟨c₁, s₁, hfirst, hrest⟩
      exact ⟨c₁, s₁, hfirst, hrest.counted⟩

theorem Chronicle.eq_of_nil (h : Chronicle c s [] c₁ s₁) : s₁ = s := by
  generalize hnil : ([] : List (Moment σ)) = log at h
  induction h with
  | refl => rfl
  | passed => exact absurd hnil.symm (List.concat_ne_nil _ _)
  | counted _ ih => exact ih hnil

theorem Chronicle.of_cons {m : Moment σ} (h : Chronicle c s (m :: log) c₂ s₂) :
    exists c₁ s₁, Coherent config m.before s ∧ Passes m s s₁ ∧ Coherent config m.after s₁ ∧
      Chronicle c₁ s₁ log c₂ s₂ := by
  generalize hwhole : m :: log = whole at h
  induction h generalizing log with
  | refl => cases hwhole
  | passed hpast hbefore hpasses hafter ih =>
      rename_i past last s₁ s₂
      cases past with
      | nil =>
          cases hwhole
          cases hpast.eq_of_nil
          exact ⟨_, s₂, hbefore, hpasses, hafter, .refl⟩
      | cons first past =>
          rcases List.cons.inj hwhole with ⟨rfl, rfl⟩
          rcases ih rfl with ⟨c₁, s₁, hfirst, hmoment, hnext, hrest⟩
          exact ⟨c₁, s₁, hfirst, hmoment, hnext, hrest.passed hbefore hpasses hafter⟩
  | counted _ ih =>
      rcases ih hwhole with ⟨c₁, s₁, hbefore, hpasses, hafter, hrest⟩
      exact ⟨c₁, s₁, hbefore, hpasses, hafter, hrest.counted⟩

theorem Chronicle.of_mem {m : Moment σ} (h : Chronicle c s log c₁ s₁) (hm : m ∈ log) :
    exists t t', Coherent config m.before t ∧ Passes m t t' ∧ Coherent config m.after t' := by
  rcases List.append_of_mem hm with ⟨past, later, rfl⟩
  rcases h.split with ⟨c₂, t, -, hlater⟩
  rcases hlater.of_cons with ⟨c₃, t', hbefore, hpasses, hafter, -⟩
  exact ⟨t, t', hbefore, hpasses, hafter⟩

/-!
# What an access offers
-/

theorem Accessed.exists_offered {key : BlockKey} {step : Step σ (Except Error (Option Slot))}
    {s' : Contents config} {slot : Slot} (h : Coherent config c s)
    (haccessed : Accessed c s key step s') (hvalue : step.value = .ok (some slot)) :
    exists block, (slot, block) ∈ s'.items ∧ block.key = key ∧ block.data = c.offered key := by
  cases haccessed with
  | hit hmem hkey =>
      rename_i block list moves
      cases hvalue
      have hslot : c.slot? key.fd key.index = some slot :=
        h.find?_eq_some_iff.mpr ⟨block, hmem, hkey⟩
      refine ⟨_, (CutSequence.items_touch_perm hmem).mem_iff.mpr List.mem_cons_self,
        (CutSequence.key_counted s slot block).trans hkey, ?_⟩
      simp only [offered, hslot, h.block?_eq hmem, Option.map_some, Option.getD_some,
        CutSequence.data_counted]
  | admitted habsent hanswer hstorable hroom fresh =>
      cases hvalue
      have hslot : c.slot? key.fd key.index = none := h.find?_eq_none_iff.mpr habsent
      refine ⟨_, List.mem_cons_self, rfl, ?_⟩
      simp only [offered, hslot, hanswer, h.config_eq, if_pos hstorable.2]
  | failed | oversized | pastEnd => cases hvalue

theorem Accessed.offered_eq_nil {key : BlockKey} {step : Step σ (Except Error (Option Slot))}
    {s' : Contents config} (h : Coherent config c s) (haccessed : Accessed c s key step s')
    (hvalue : forall slot, step.value ≠ .ok (some slot)) : c.offered key = [] := by
  cases haccessed with
  | hit hmem hkey => exact absurd rfl (hvalue _)
  | failed habsent hanswer =>
      have hslot : c.slot? key.fd key.index = none := h.find?_eq_none_iff.mpr habsent
      simp only [offered, hslot, hanswer]
  | oversized habsent hanswer hsize =>
      have hslot : c.slot? key.fd key.index = none := h.find?_eq_none_iff.mpr habsent
      simp only [offered, hslot, hanswer, h.config_eq, if_neg (Nat.not_le.mpr hsize)]
  | pastEnd habsent hanswer =>
      have hslot : c.slot? key.fd key.index = none := h.find?_eq_none_iff.mpr habsent
      simp only [offered, hslot, hanswer, ite_self]
  | admitted habsent hanswer hstorable hroom fresh => exact absurd rfl (hvalue _)

theorem Accessed.unfilled {key : BlockKey} {step : Step σ (Except Error (Option Slot))}
    {s' : Contents config} {piece : Piece} (h : Coherent config c s)
    (haccessed : Accessed c s key step s') (hvalue : forall slot, step.value ≠ .ok (some slot))
    (hpos : 0 < piece.len) :
    piece.available (c.offered key) ≠ piece.len ∧ piece.wanted (c.offered key) = [] := by
  rw [haccessed.offered_eq_nil h hvalue]
  constructor
  · simp only [Piece.available, List.length_nil, Nat.zero_sub, Nat.min_zero]
    exact Nat.ne_of_lt hpos
  · simp [Piece.wanted]

/-!
# Chronicles of reads
-/

/-- `buf` with the bytes that the accesses of a read have offered for its pieces. -/
def delivered (fd : FileDescriptor) (pieces : List Piece) (log : List (Moment σ)) (buf : Bytes) :
    Bytes :=
  (pieces.zip log).foldl (fun buf e =>
    patch buf e.1.dest (e.1.wanted (e.2.before.offered ⟨fd, e.1.index⟩))) buf

theorem delivered_cons (fd : FileDescriptor) (piece : Piece) (pieces : List Piece) (m : Moment σ)
    (log : List (Moment σ)) (buf : Bytes) :
    delivered fd (piece :: pieces) (m :: log) buf =
      delivered fd pieces log
        (patch buf piece.dest (piece.wanted (m.before.offered ⟨fd, piece.index⟩))) := rfl

theorem delivered_nil (fd : FileDescriptor) (pieces : List Piece) (buf : Bytes) :
    delivered (σ := σ) fd pieces [] buf = buf := by
  rw [delivered, List.zip_nil_right]
  rfl

theorem readJournal_cons {fd : FileDescriptor} {piece : Piece} {rest : List Piece}
    {accessed : Step σ (Except Error (Option Slot))}
    (haccess : c.access fd piece.index = .ok accessed) :
    readJournal fd (piece :: rest) c = ⟨.access ⟨fd, piece.index⟩, c, accessed.cache⟩ ::
      if piece.available (c.offered ⟨fd, piece.index⟩) = piece.len then
        readJournal fd rest accessed.cache
      else
        [] := by
  rw [readJournal, haccess]

theorem readPieces_chronicle (hvalid : config.Valid) {fd : FileDescriptor} {pieces : List Piece}
    {buf : Bytes} (h : Coherent config c s)
    (hpieces : forall piece, piece ∈ pieces ->
      0 < piece.len ∧ piece.dest + piece.len <= buf.length) :
    Completes (readPieces fd pieces c buf) fun step =>
      step.value.buf = delivered fd pieces (readJournal fd pieces c) buf ∧
        exists s', Chronicle c s (readJournal fd pieces c) step.cache s' ∧
          Coherent config step.cache s' := by
  induction pieces generalizing c s buf with
  | nil => exact Completes.ok ⟨rfl, s, .refl, h⟩
  | cons piece rest ih =>
      rcases hpieces piece List.mem_cons_self with ⟨hpos, hinside⟩
      rcases access_completes hvalid h ⟨fd, piece.index⟩ with
        ⟨accessed, haccess, s', haccessed, h'⟩
      have hfirst : Chronicle c s [⟨.access ⟨fd, piece.index⟩, c, accessed.cache⟩]
          accessed.cache s' :=
        Chronicle.passed (m := ⟨.access ⟨fd, piece.index⟩, c, accessed.cache⟩) .refl h
          (.accessed haccessed) h'
      rw [readJournal_cons haccess, delivered_cons]
      refine Completes.bind_eq haccess ?_
      cases hvalue : accessed.value with
      | error e =>
          have hno : forall slot, accessed.value ≠ .ok (some slot) := by
            intro slot hsome
            rw [hvalue] at hsome
            cases hsome
          rcases haccessed.unfilled h hno hpos with ⟨hunfilled, hnothing⟩
          rw [if_neg hunfilled, delivered_nil]
          refine Completes.pure ⟨?_, s', hfirst, h'⟩
          rw [hnothing, patch_nil]
      | ok found =>
          cases found with
          | none =>
              have hno : forall slot, accessed.value ≠ .ok (some slot) := by
                intro slot hsome
                rw [hvalue] at hsome
                cases hsome
              rcases haccessed.unfilled h hno hpos with ⟨hunfilled, hnothing⟩
              rw [if_neg hunfilled, delivered_nil]
              refine Completes.pure
                ⟨?_, s', hfirst.counted (n := 1) (k := 0), h'.toAgree, h'.config_eq⟩
              rw [hnothing, patch_nil]
          | some slot =>
              rcases haccessed.exists_offered h hvalue with ⟨block, hmem, hkey, hdata⟩
              simp only [h'.block?_eq hmem]
              refine Completes.bind_eq (Piece.copy_eq hinside block.data) ?_
              rw [<- hdata]
              by_cases hshort : piece.available block.data < piece.len
              · rw [if_pos hshort, if_neg (Nat.ne_of_lt hshort), delivered_nil]
                exact Completes.pure
                  ⟨rfl, s', hfirst.counted (n := 1) (k := 0), h'.toAgree, h'.config_eq⟩
              · have hall : piece.available block.data = piece.len :=
                  Nat.le_antisymm (Nat.min_le_left _ _) (Nat.le_of_not_lt hshort)
                rw [if_neg hshort, if_pos hall]
                refine (ih h' ?_).bind ?_
                · intro other hother
                  rw [Piece.length_patch_wanted hinside]
                  exact hpieces other (List.mem_cons_of_mem _ hother)
                · intro more hmore
                  rcases hmore with ⟨hbuf, s'', hrest, h''⟩
                  exact Completes.pure ⟨hbuf, s'', hfirst.append hrest, h''⟩

theorem read_chronicle (hvalid : config.Valid) (h : Coherent config c s) (fd : FileDescriptor)
    (offset : ByteOffset) (buf : Bytes) :
    Completes (c.read fd offset buf) fun step =>
      step.value.buf =
          delivered fd (c.piecesOf offset buf.length) (c.journal (.read fd offset buf)) buf ∧
        exists s', Chronicle c s (c.journal (.read fd offset buf)) step.cache s' ∧
          Coherent config step.cache s' := by
  unfold read
  rw [journal, piecesOf, h.config_eq]
  rcases Span.ofRange_cases hvalid.blockSize_pos offset buf.length with
    ⟨hlen, hrange⟩ | ⟨hpos, hfits, span, hrange, hoffset, hstop, hsize⟩ | ⟨hpos, hover, hrange⟩
  · rw [hrange]
    exact Completes.pure ⟨rfl, s, .refl, h⟩
  · have htiled := span.tiled_pieces
    rw [hoffset, hstop, hsize] at htiled
    have hpieces : forall piece, piece ∈ span.pieces ->
        0 < piece.len ∧ piece.dest + piece.len <= buf.length := by
      intro piece hpiece
      exact ⟨htiled.len_pos hvalid.blockSize_pos hpiece, htiled.inside_length hpiece⟩
    rw [hrange]
    refine (readPieces_chronicle hvalid h hpieces).bind ?_
    intro step hstep
    rcases hstep with ⟨hbuf, s', hchronicle, h'⟩
    cases hresult : step.value.result with
    | error e => exact Completes.pure ⟨hbuf, s', hchronicle, h'⟩
    | ok copied =>
        exact Completes.pure
          ⟨hbuf, s', hchronicle.counted (n := 0) (k := copied), h'.toAgree, h'.config_eq⟩
  · rw [hrange]
    exact Completes.pure ⟨rfl, s, .refl, h⟩

/-!
# Chronicles of all operations
-/

theorem Invalidated.passes {fd : FileDescriptor} {step : Step σ Nat} {s' : Contents config}
    (h : Invalidated c s fd step s') : Passes ⟨.invalidate fd, c, step.cache⟩ s s' := by
  cases h with
  | absent habsent =>
      have hnone : forall held, held ∈ s.holdings -> (held.slot ∈ [] <-> held.key.fd = fd) := by
        intro held hheld
        simp [habsent held hheld]
      exact .invalidated hnone
  | dropped hfile _ => exact .invalidated hfile

theorem invalidate_chronicle (h : Coherent config c s) (fd : FileDescriptor)
    (order : SlotOrder) :
    Completes (c.invalidate fd order) fun step =>
      exists s', Chronicle c s (c.journal (.invalidate fd order)) step.cache s' ∧
        Coherent config step.cache s' := by
  rcases invalidate_completes h fd order with ⟨step, hstep, s', hdropped, h'⟩
  have hjournal : c.journal (.invalidate fd order) = [⟨.invalidate fd, c, step.cache⟩] := by
    rw [journal, hstep]
  rw [hjournal]
  exact ⟨step, hstep, s', Chronicle.passed (m := ⟨.invalidate fd, c, step.cache⟩) .refl h
    hdropped.passes h', h'⟩

theorem readRaw_chronicle (hvalid : config.Valid) (h : Coherent config c s) (fd : FileDescriptor)
    (offset : ByteOffset) (size : Nat) (buf : Bytes) :
    Completes (c.readRaw fd offset size buf) fun step =>
      exists s', Chronicle c s (c.journal (.readRaw fd offset size buf)) step.cache s' ∧
        Coherent config step.cache s' := by
  unfold readRaw
  rw [journal]
  by_cases hsize : buf.length < size
  · rw [if_pos hsize, if_pos hsize]
    exact Completes.pure ⟨s, .refl, h⟩
  · rw [if_neg hsize, if_neg hsize]
    refine (read_chronicle hvalid h fd offset (buf.take size)).bind ?_
    intro step hstep
    exact Completes.pure hstep.2

theorem perform_chronicle (hvalid : config.Valid) (h : Coherent config c s)
    (operation : Operation) :
    Completes (c.perform operation) fun step =>
      exists s', Chronicle c s (c.journal operation) step.cache s' ∧
        Coherent config step.cache s' := by
  cases operation with
  | read fd offset buf =>
      exact (read_chronicle hvalid h fd offset buf).map fun _ hstep => hstep.2
  | readRaw fd offset size buf =>
      exact (readRaw_chronicle hvalid h fd offset size buf).map fun _ hstep => hstep
  | invalidate fd order => exact (invalidate_chronicle h fd order).map fun _ hstep => hstep
  | clear =>
      rcases clear_coherent hvalid h with ⟨-, hcleared⟩
      exact Completes.ok ⟨.empty,
        Chronicle.passed (m := ⟨.clear, c, c.clear.cache⟩) .refl h .cleared hcleared, hcleared⟩

theorem Trail.chronicle (htrail : Trail c log c₁) (hvalid : config.Valid)
    (h : Coherent config c s) :
    exists s₁, Chronicle c s log c₁ s₁ ∧ Coherent config c₁ s₁ := by
  induction htrail with
  | refl => exact ⟨s, .refl, h⟩
  | accessed _ haccess ih =>
      rename_i log c₁ key step _
      rcases ih with ⟨s₁, hpast, h₁⟩
      rcases (access_completes hvalid h₁ key).of_eq haccess with ⟨s₂, haccessed, h₂⟩
      exact ⟨s₂, Chronicle.passed (m := ⟨.access key, c₁, step.cache⟩) hpast h₁
        (.accessed haccessed) h₂, h₂⟩
  | performed _ hperform ih =>
      rcases ih with ⟨s₁, hpast, h₁⟩
      rcases (perform_chronicle hvalid h₁ _).of_eq hperform with ⟨s₂, hoperation, h₂⟩
      exact ⟨s₂, hpast.append hoperation, h₂⟩

theorem ReachedBy.chronicle (h : ReachedBy config log c) :
    config.Valid ∧ exists (created : Cache σ) (s : Contents config),
      Chronicle created .empty log c s ∧ Coherent config c s := by
  cases h with
  | created hcreate htrail =>
      have hvalid := valid_of_create hcreate
      rcases (create_completes hvalid _).of_eq hcreate with ⟨-, hcreated⟩
      rcases htrail.chronicle hvalid hcreated with ⟨s, hchronicle, hs⟩
      exact ⟨hvalid, _, s, hchronicle, hs⟩

end Cache
end BlockCache

import BlockCache.Proofs.Cache.Equivalence
import BlockCache.Proofs.Cache.Journal

/-!
# Policies

A policy says how a cache keeps its keys: what a hit makes of a key, and which key has to go.
A reference cache does this with a list of keys in order of last access and with nothing else.
It asks its source itself, and decides by itself what is a hit.

The sizes of a cache may be such that it follows a policy. Then every run of the cache is a
run of the reference cache, access by access, also in the middle of a read.
-/

namespace BlockCache

/-- How a cache keeps its keys. The entries are given in order of last access, latest first. -/
structure Policy (ε : Type) where
  key : ε -> BlockKey
  enter : BlockKey -> ε
  hit : ε -> ε
  victim? : List ε -> Option ε

/-- A cache of keys in front of a source, with the keys that it has evicted so far. -/
structure ReferenceCache (ε σ : Type) where
  source : σ
  entries : List ε
  evicted : List BlockKey

namespace ReferenceCache

variable {ε σ : Type}

def empty (source : σ) : ReferenceCache ε σ :=
  ⟨source, [], []⟩

def remove (policy : Policy ε) (r : ReferenceCache ε σ) (p : BlockKey -> Bool) :
    ReferenceCache ε σ :=
  { r with entries := r.entries.filter fun e => !p (policy.key e) }

def makeRoom (policy : Policy ε) (capacity : Nat) (r : ReferenceCache ε σ) :
    ReferenceCache ε σ :=
  if r.entries.length < capacity then
    r
  else
    match policy.victim? r.entries with
    | none => r
    | some e =>
        { r.remove policy fun key => key = policy.key e with
          evicted := r.evicted ++ [policy.key e] }

def adopt (policy : Policy ε) (capacity : Nat) (r : ReferenceCache ε σ) (key : BlockKey) :
    ReferenceCache ε σ :=
  { r.makeRoom policy capacity with
    entries := policy.enter key :: (r.makeRoom policy capacity).entries }

variable [BlockSource σ]

/-- A hit brings the key to the front. A miss asks the source, and admits what is a block. -/
def access (policy : Policy ε) (capacity : Nat) (blockSize : UInt32) (r : ReferenceCache ε σ)
    (key : BlockKey) : ReferenceCache ε σ :=
  match r.entries.find? fun e => policy.key e = key with
  | some e =>
      { r.remove policy fun other => other = key with
        entries := policy.hit e :: (r.remove policy fun other => other = key).entries }
  | none =>
      let fetched := BlockSource.fetch r.source key.fd key.index blockSize
      let r := { r with source := fetched.source }
      match fetched.answer with
      | .error _ => r
      | .ok data =>
          if data = [] ∨ blockSize.toNat < data.length then r else r.adopt policy capacity key

def perform (policy : Policy ε) (capacity : Nat) (blockSize : UInt32) (r : ReferenceCache ε σ) :
    Deed -> ReferenceCache ε σ
  | .access key => r.access policy capacity blockSize key
  | .invalidate fd => r.remove policy fun key => key.fd = fd
  | .clear => { r with entries := [] }

def run (policy : Policy ε) (capacity : Nat) (blockSize : UInt32) (source : σ)
    (deeds : List Deed) : ReferenceCache ε σ :=
  deeds.foldl (perform policy capacity blockSize) (empty source)

end ReferenceCache

namespace Cache

/-!
# Runs with their journals
-/

section Tasks

variable {σ : Type}

inductive Task where
  | access (key : BlockKey)
  | perform (operation : Operation)

variable [BlockSource σ]

def carryOne (c : Cache σ) : Task -> Except Corruption (List (Moment σ) × Cache σ)
  | .access key => (c.access key.fd key.index).map fun step =>
      ([⟨.access key, c, step.cache⟩], step.cache)
  | .perform operation => (c.perform operation).map fun step =>
      (c.journal operation, step.cache)

def carryOut (c : Cache σ) : List Task -> Except Corruption (List (Moment σ) × Cache σ)
  | [] => .ok ([], c)
  | task :: tasks => do
      let first <- c.carryOne task
      let rest <- first.2.carryOut tasks
      return (first.1 ++ rest.1, rest.2)

theorem carryOne_completes {config : Config} {c : Cache σ} {s : Contents config}
    (hvalid : config.Valid) (h : Coherent config c s) (task : Task) :
    Completes (c.carryOne task) fun ran =>
      exists s', Chronicle c s ran.1 ran.2 s' ∧ Coherent config ran.2 s' := by
  cases task with
  | access key =>
      apply (access_completes hvalid h key).map
      intro step hstep
      rcases hstep with ⟨s', haccessed, h'⟩
      exact ⟨s', Chronicle.passed (m := ⟨.access key, c, step.cache⟩) .refl h
        (.accessed haccessed) h', h'⟩
  | perform operation =>
      exact (perform_chronicle hvalid h operation).map fun _ hstep => hstep

theorem carryOut_completes {config : Config} {c : Cache σ} {s : Contents config}
    (hvalid : config.Valid) (h : Coherent config c s) (tasks : List Task) :
    Completes (c.carryOut tasks) fun ran =>
      exists s', Chronicle c s ran.1 ran.2 s' ∧ Coherent config ran.2 s' := by
  induction tasks generalizing c s with
  | nil => exact Completes.ok ⟨s, .refl, h⟩
  | cons task tasks ih =>
      apply (carryOne_completes hvalid h task).bind
      intro first hfirst
      rcases hfirst with ⟨s₁, hchronicle, h₁⟩
      apply (ih h₁).bind
      intro rest hrest
      rcases hrest with ⟨s₂, hchronicle', h₂⟩
      exact Completes.pure ⟨s₂, hchronicle.append hchronicle', h₂⟩

/-- What a task does to the blocks, if it is a single thing. -/
def Task.deed? : Task -> Option Deed
  | .access key => some (.access key)
  | .perform (.invalidate fd _) => some (.invalidate fd)
  | .perform .clear => some .clear
  | .perform (.read _ _ _) | .perform (.readRaw _ _ _ _) => none

theorem map_deed_carryOne {c : Cache σ} {task : Task} {deed : Deed}
    {ran : List (Moment σ) × Cache σ} (h : c.carryOne task = .ok ran)
    (hdeed : task.deed? = some deed) : ran.1.map Moment.deed = [deed] := by
  cases task with
  | access key =>
      rcases exists_of_map_eq_ok h with ⟨step, hstep, rfl⟩
      cases hdeed
      rfl
  | perform operation =>
      cases operation with
      | read | readRaw => cases hdeed
      | invalidate fd order =>
          rcases exists_of_map_eq_ok h with ⟨step, hstep, rfl⟩
          rcases exists_of_map_eq_ok hstep with ⟨dropped, hdropped, -⟩
          cases hdeed
          rw [journal, hdropped]
          rfl
      | clear =>
          cases h
          cases hdeed
          rfl

theorem map_deed_carryOut {c : Cache σ} {tasks : List Task} {deeds : List Deed}
    {ran : List (Moment σ) × Cache σ} (h : c.carryOut tasks = .ok ran)
    (hdeeds : tasks.map Task.deed? = deeds.map some) : ran.1.map Moment.deed = deeds := by
  induction tasks generalizing c deeds ran with
  | nil =>
      cases h
      rw [List.map_eq_nil_iff.mp hdeeds.symm]
      rfl
  | cons task tasks ih =>
      rcases List.map_eq_cons_iff.mp hdeeds.symm with ⟨deed, rest, rfl, hdeed, hrest⟩
      rcases exists_of_bind_eq_ok h with ⟨first, hfirst, h⟩
      rcases exists_of_bind_eq_ok h with ⟨last, hlast, h⟩
      cases h
      rw [List.map_append, map_deed_carryOne hfirst hdeed.symm, ih hlast hrest.symm]
      rfl

end Tasks

/-!
# Evicted keys
-/

def residentKeys {σ : Type} (c : Cache σ) : List BlockKey :=
  match c.residents with
  | .ok residents => residents.map fun r => r.1.key
  | .error _ => []

end Cache

def Moment.evicted {σ : Type} (m : Moment σ) : List BlockKey :=
  match m.deed with
  | .access _ => m.before.residentKeys.filter fun key => !m.after.isResident key.fd key.index
  | .invalidate _ => []
  | .clear => []

theorem CutSequence.cut_shelf_le {maxNew maxOld : Nat} (s : CutSequence maxNew maxOld) :
    s.shelf.cut <= s.shelf.blocks.length := by
  rw [shelf, List.length_map]
  exact s.cut_le_length

namespace Cache

section Evictions

variable {σ : Type} {config : Config} {c c' : Cache σ} {s s' : Contents config} {key : BlockKey}

theorem Coherent.residentKeys_eq (h : Coherent config c s) : c.residentKeys = s.keys := by
  rw [residentKeys, h.residents_eq, CutSequence.keys_eq_map_shelf,
    <- Shelf.map_fst_residents s.cut_shelf_le config.maxOld.toNat, List.map_map]
  rfl

def lost (s s' : Contents config) : List BlockKey :=
  s.keys.filter fun key => key ∉ s'.keys

theorem evicted_access (h : Coherent config c s) (h' : Coherent config c' s') :
    (⟨.access key, c, c'⟩ : Moment σ).evicted = lost s s' := by
  show c.residentKeys.filter _ = _
  rw [h.residentKeys_eq]
  apply List.filter_congr
  intro other _
  rw [Bool.eq_iff_iff, Bool.not_eq_true', Bool.eq_false_iff, Ne, h'.isResident_iff_keys,
    decide_eq_true_eq]

theorem lost_of_subset (h : s.keys ⊆ s'.keys) : lost s s' = [] := by
  rw [lost, List.filter_eq_nil_iff]
  intro key hkey
  rw [decide_eq_true_eq, not_not]
  exact h hkey

theorem lost_remove {slot : Slot} {block : Block} (h : s.keys.Nodup)
    (hmem : (slot, block) ∈ s.items) : lost s (s.remove slot) = [block.key] := by
  have hkeys : (s.remove slot).keys = s.keys.filter fun key => !decide (key = block.key) :=
    (CutSequence.selects_slot h hmem).keys_removeAll
  have hlost : lost s (s.remove slot) = s.keys.filter fun key => key = block.key := by
    apply List.filter_congr
    intro key hkey
    simp [hkeys, hkey]
  rw [hlost, List.filter_eq, List.count_eq_one_of_mem h (CutSequence.mem_keys hmem)]
  rfl

theorem lost_push {slot : Slot} {block : Block} {fresh : slot ∉ s'.slots}
    (habsent : block.key ∉ s.keys) : lost s (s'.push slot block fresh) = lost s s' := by
  apply List.filter_congr
  intro key hkey
  have hne : key ≠ block.key := ne_of_mem_of_not_mem hkey habsent
  simp [CutSequence.keys_push, hne]

end Evictions

/-!
# Following a policy
-/

section Following

variable {ε σ : Type} {config : Config} {policy : Policy ε} {view : Block -> ε}
  {log : List (Moment σ)} {c : Cache σ} {s s' : Contents config} {key : BlockKey}

/-- With these sizes blocks are kept as the policy says, each block as the entry `view` makes. -/
structure Follows (config : Config) (policy : Policy ε) (view : Block -> ε) : Prop where
  key_view : forall block, policy.key (view block) = block.key
  view_new : forall (key : BlockKey) data,
    view { fd := key.fd, index := key.index, counter := 0, data := data } = policy.enter key
  touch : forall (s : Contents config) block, s.Fits config.capacity.toNat ->
    block ∈ s.shelf.blocks -> (s.shelf.touch block).blocks.map view =
      policy.hit (view block) :: (s.shelf.discard fun key => key = block.key).blocks.map view
  victim : forall s : Contents config, s.Fits config.capacity.toNat ->
    policy.victim? (s.shelf.blocks.map view) = (s.shelf.victim? config.maxOld.toNat).map view

def reference (view : Block -> ε) (log : List (Moment σ)) (c : Cache σ) (s : Contents config) :
    ReferenceCache ε σ :=
  ⟨c.source, s.shelf.blocks.map view, log.flatMap Moment.evicted⟩

theorem Follows.find?_map (h : Follows config policy view) (s : Shelf) (key : BlockKey) :
    (s.blocks.map view).find? (fun e => policy.key e = key) = (s.find? key).map view := by
  rw [List.find?_map]
  simp only [Function.comp_def, h.key_view]
  rfl

theorem Follows.filter_map (h : Follows config policy view) (s : Shelf) (p : BlockKey -> Bool) :
    (s.blocks.map view).filter (fun e => !p (policy.key e)) = (s.discard p).blocks.map view := by
  rw [List.filter_map]
  simp only [Function.comp_def, h.key_view]
  rfl

theorem Follows.makeRoom (h : Follows config policy view) (hs : Coherent config c s)
    {room : Step σ (Option Block)} (hroom : MadeRoom c s room s') (source : σ)
    (evicted : List BlockKey) :
    ReferenceCache.makeRoom policy config.capacity.toNat
        ⟨source, s.shelf.blocks.map view, evicted⟩ =
      ⟨source, s'.shelf.blocks.map view, evicted ++ lost s s'⟩ := by
  have hlength : (s.shelf.blocks.map view).length = s.items.length := by
    rw [List.length_map, CutSequence.shelf, List.length_map]
  unfold ReferenceCache.makeRoom
  dsimp only
  rw [hlength]
  cases hroom with
  | spare hlt => rw [if_pos hlt, lost_of_subset (List.Subset.refl _), List.append_nil]
  | evicted hfull hcandidate hmem =>
      rename_i slot block list moves
      have hvictim : policy.victim? (s.shelf.blocks.map view) = some (view block) := by
        rw [h.victim s hs.fits, CutSequence.victim?_shelf hcandidate hmem]
        rfl
      rw [if_neg (Nat.not_lt.mpr hfull), hvictim]
      simp only [ReferenceCache.remove, h.key_view]
      rw [h.filter_map s.shelf fun key => key = block.key, lost_remove hs.nodup_keys hmem,
        CutSequence.shelf_remove hs.nodup_keys hmem]

/--
The cache has the keys of the reference cache in the same order, and with the same counts if
the policy counts. It has evicted the same keys in the same order, and left its source alike.
-/
structure Mirrors (policy : Policy ε) (view : Block -> ε) (r : ReferenceCache ε σ)
    (log : List (Moment σ)) (c : Cache σ) : Prop where
  residents : Completes c.residents fun residents =>
    residents.map (fun resident => view resident.1) = r.entries
  isResident : forall key : BlockKey,
    c.isResident key.fd key.index = true <-> key ∈ r.entries.map policy.key
  evicted : log.flatMap Moment.evicted = r.evicted
  source : c.source = r.source

theorem Follows.mirrors (h : Follows config policy view) (hs : Coherent config c s)
    (log : List (Moment σ)) : Mirrors policy view (c.reference view log s) log c where
  residents := by
    have hblocks : (s.shelf.residents config.maxOld.toNat).map Prod.fst = s.shelf.blocks :=
      Shelf.map_fst_residents s.cut_shelf_le _
    rw [hs.residents_eq]
    apply Completes.ok
    rw [reference, <- hblocks, List.map_map]
    rfl
  isResident key := by
    have hkeys : (s.shelf.blocks.map view).map policy.key = s.keys := by
      rw [List.map_map, CutSequence.keys_eq_map_shelf]
      exact List.map_congr_left fun block _ => h.key_view block
    rw [hs.isResident_iff_keys, reference, hkeys]
  evicted := rfl
  source := rfl

variable [BlockSource σ]

theorem Follows.access (h : Follows config policy view) (hs : Coherent config c s)
    {step : Step σ (Except Error (Option Slot))} (haccessed : Accessed c s key step s')
    (evicted : List BlockKey) :
    ReferenceCache.access policy config.capacity.toNat config.blockSize
        ⟨c.source, s.shelf.blocks.map view, evicted⟩ key =
      ⟨step.cache.source, s'.shelf.blocks.map view, evicted ++ lost s s'⟩ := by
  have hfetch : BlockSource.fetch c.source key.fd key.index config.blockSize = c.supply key := by
    rw [supply, hs.config_eq]
  have hkept : lost s s = [] := lost_of_subset (List.Subset.refl _)
  have hmiss : Absent s key -> s.shelf.find? key = none :=
    fun habsent => CutSequence.find?_shelf_eq_none (absent_iff.mp habsent)
  unfold ReferenceCache.access
  dsimp only
  rw [h.find?_map, hfetch]
  cases haccessed with
  | hit hmem hkey =>
      rename_i slot block list moves
      cases hkey
      have hsame : lost s (s.touch slot).2 = [] :=
        lost_of_subset (s.keys_touch_perm slot).symm.subset
      rw [CutSequence.find?_shelf hs.nodup_keys hmem, hsame, List.append_nil,
        CutSequence.shelf_touch hs.nodup_keys hmem,
        h.touch s block hs.fits (List.mem_map_of_mem hmem)]
      simp only [Option.map_some, ReferenceCache.remove]
      rw [h.filter_map s.shelf fun key => key = block.key]
  | failed habsent hanswer =>
      rw [hmiss habsent, hanswer, hkept, List.append_nil]
      rfl
  | oversized habsent hanswer hsize =>
      rw [hmiss habsent, hanswer, hkept, List.append_nil]
      exact if_pos (Or.inr hsize)
  | pastEnd habsent hanswer =>
      rw [hmiss habsent, hanswer, hkept, List.append_nil]
      exact if_pos (Or.inl rfl)
  | admitted habsent hanswer hstorable hroom fresh =>
      rename_i data room s₁ slot list moves
      have hblock : ¬ (data = [] ∨ config.blockSize.toNat < data.length) :=
        not_or.mpr ⟨hstorable.1, Nat.not_lt.mpr hstorable.2⟩
      have hsource : (c.supply key).source = room.cache.source := hroom.kept.2.1.symm
      rw [hmiss habsent, hanswer, lost_push (absent_iff.mp habsent)]
      simp only [Option.map_none, if_neg hblock, ReferenceCache.adopt]
      rw [h.makeRoom (hs.asked key) hroom, hsource, <- h.view_new key data]
      rfl

theorem Passes.reference {m : Moment σ} (h : Follows config policy view)
    (hbefore : Coherent config m.before s) (hafter : Coherent config m.after s')
    (hpasses : Passes m s s') :
    (m.before.reference view log s).perform policy config.capacity.toNat config.blockSize m.deed =
      m.after.reference view (log ++ [m]) s' := by
  unfold Cache.reference
  rw [List.flatMap_append, List.flatMap_singleton]
  cases hpasses with
  | accessed haccessed =>
      rw [evicted_access hbefore hafter]
      exact h.access hbefore haccessed _
  | invalidated hslots =>
      rename_i c fd slots list index
      rw [CutSequence.shelf_removeAll (CutSequence.selects_file hslots), <- h.filter_map]
      exact congrArg (ReferenceCache.mk _ _) (List.append_nil _).symm
  | cleared => exact congrArg (ReferenceCache.mk _ _) (List.append_nil _).symm

theorem Chronicle.reference {created : Cache σ} (h : Follows config policy view)
    (hchronicle : Chronicle created (.empty : Contents config) log c s) :
    .run policy config.capacity.toNat config.blockSize created.source (log.map Moment.deed) =
      c.reference view log s := by
  induction hchronicle with
  | refl => rfl
  | passed _ hbefore hpasses hafter ih =>
      rw [<- hpasses.reference h hbefore hafter, <- ih, List.map_append, ReferenceCache.run,
        List.foldl_append]
      rfl
  | counted _ ih => exact ih

/-- Every run of a cache whose sizes follow a policy is a run of the reference cache. -/
theorem Follows.carryOut_completes (h : Follows config policy view) (hvalid : config.Valid)
    (source : σ) (tasks : List Task) :
    Completes (create config source) fun created =>
      Completes (created.cache.carryOut tasks) fun ran =>
        Mirrors policy view (.run policy config.capacity.toNat config.blockSize source
            (ran.1.map Moment.deed)) ran.1 ran.2 ∧
          (forall deeds, tasks.map Task.deed? = deeds.map some -> ran.1.map Moment.deed = deeds) ∧
          exists s, Coherent config ran.2 s := by
  apply (create_completes hvalid source).mono
  intro created hcreated
  rcases hcreated with ⟨hsource, hempty⟩
  rcases Cache.carryOut_completes hvalid hempty tasks with ⟨ran, hran, s, hchronicle, hs⟩
  refine ⟨ran, hran, ?_, ?_, s, hs⟩
  · rw [<- hsource, hchronicle.reference h]
    exact h.mirrors hs ran.1
  · intro deeds hdeeds
    exact map_deed_carryOut hran hdeeds

end Following
end Cache
end BlockCache

import BlockCache.Proofs.Cache.Recasting

/-!
# Recorded fetches

A cache in front of a recorded source does what it does in front of the source alone, and
the record says which fetches an operation has made. This is how statements about the
fetches of a single call are made: the same call is also run on a recording twin.
-/

namespace BlockCache

variable {σ : Type}

namespace Cache

def withSource {τ : Type} (c : Cache σ) (source : τ) : Cache τ :=
  { config := c.config
    source := source
    list := c.list
    index := c.index
    stats := c.stats }

/-- The twin of a cache that starts to record its fetches. -/
def recorded (c : Cache σ) : Cache (Recorded σ) :=
  c.withSource ⟨c.source, []⟩

def unrecorded (c : Cache (Recorded σ)) : Cache σ :=
  c.withSource c.source.source

theorem unrecorded_recorded (c : Cache σ) : c.recorded.unrecorded = c := rfl

end Cache

def Step.unrecorded {α : Type} (step : Step (Recorded σ) α) : Step σ α :=
  ⟨step.value, step.cache.unrecorded, step.events⟩

namespace Cache

variable (c : Cache (Recorded σ))

theorem invalidate_unrecorded (fd : FileDescriptor) (order : SlotOrder) :
    c.unrecorded.invalidate fd order = (c.invalidate fd order).map Step.unrecorded :=
  invalidate_recast Recorded.source 0 c fd order

theorem create_unrecorded (config : Config) (source : Recorded σ) :
    create config source.source = (create config source).map Step.unrecorded := by
  rw [create, create]
  cases config.validate <;> rfl

variable [BlockSource σ]

theorem keepsFetches_source : KeepsFetches (Recorded.source : Recorded σ -> σ) :=
  fun _ _ _ _ => rfl

theorem access_unrecorded (fd : FileDescriptor) (index : BlockIndex) :
    c.unrecorded.access fd index = (c.access fd index).map Step.unrecorded :=
  access_recast keepsFetches_source 0 c fd index

theorem read_unrecorded (fd : FileDescriptor) (offset : ByteOffset) (buf : Bytes) :
    c.unrecorded.read fd offset buf = (c.read fd offset buf).map Step.unrecorded :=
  read_recast keepsFetches_source 0 c fd offset buf

theorem read_of_recorded {c : Cache σ} {fd : FileDescriptor} {offset : ByteOffset} {buf : Bytes}
    {twin : Step (Recorded σ) (Reading (Except Error Nat))}
    (h : c.recorded.read fd offset buf = .ok twin) :
    c.read fd offset buf = .ok twin.unrecorded := by
  rw [<- unrecorded_recorded c, read_unrecorded, h]
  rfl

theorem readRaw_unrecorded (fd : FileDescriptor) (offset : ByteOffset) (size : Nat) (buf : Bytes) :
    c.unrecorded.readRaw fd offset size buf =
      (c.readRaw fd offset size buf).map Step.unrecorded := by
  rw [readRaw, readRaw]
  by_cases hsize : buf.length < size
  · rw [if_pos hsize, if_pos hsize]
    rfl
  · rw [if_neg hsize, if_neg hsize, read_unrecorded]
    cases c.read fd offset (buf.take size) <;> rfl

theorem perform_unrecorded (operation : Operation) :
    c.unrecorded.perform operation = (c.perform operation).map Step.unrecorded := by
  cases operation with
  | read fd offset buf =>
      rw [perform, perform, read_unrecorded]
      cases c.read fd offset buf <;> rfl
  | readRaw fd offset size buf =>
      rw [perform, perform, readRaw_unrecorded]
      cases c.readRaw fd offset size buf <;> rfl
  | invalidate fd order =>
      rw [perform, perform, invalidate_unrecorded]
      cases c.invalidate fd order <;> rfl
  | clear => rfl

theorem run_unrecorded (operations : List Operation) :
    c.unrecorded.run operations = (c.run operations).map Step.unrecorded := by
  induction operations generalizing c with
  | nil => rfl
  | cons operation operations ih =>
      rw [run, run, perform_unrecorded]
      cases c.perform operation with
      | error e => rfl
      | ok first =>
          have hrest := ih first.cache
          simp only [bind, Except.bind, Except.map]
          have hcache : first.unrecorded.cache = first.cache.unrecorded := rfl
          rw [hcache, hrest]
          cases first.cache.run operations <;> rfl

/-- A fetch that makes an access fail, with the error that it makes. -/
inductive Cause (config : Config) (call : Call) : Error -> Prop where
  | failed {e : Error} : call.answer = .error e -> Cause config call e
  | oversized {data : Bytes} :
      call.answer = .ok data -> config.blockSize.toNat < data.length ->
      Cause config call
        (.oversizedBlock call.key.fd call.key.index data.length config.blockSize)

section Failures

variable {σ : Type} [BlockSource σ] {config : Config} {c : Cache σ} {s s' : Contents config}
  {e : Error}

theorem Accessed.cause {key : BlockKey} {step : Step σ (Except Error (Option Slot))}
    (h : Accessed c s key step s') (hvalue : step.value = .error e) :
    Cause config ⟨key, (c.supply key).answer⟩ e := by
  cases h with
  | hit hmem hkey => cases hvalue
  | failed habsent hanswer =>
      cases hvalue
      exact .failed hanswer
  | oversized habsent hanswer hsize =>
      cases hvalue
      exact .oversized hanswer hsize
  | pastEnd habsent hanswer => cases hvalue
  | admitted habsent hanswer hstorable hroom fresh => cases hvalue

theorem ReadPieces.exists_failed {fd : FileDescriptor} {pieces : List Piece} {buf : Bytes}
    {step : Step σ (Reading (Except Error Nat))} (h : ReadPieces fd pieces c s buf step s')
    (hresult : step.value.result = .error e) :
    exists (c₁ : Cache σ) (s₁ : Contents config) (key : BlockKey)
      (accessed : Step σ (Except Error (Option Slot))),
      Evolves c s c₁ s₁ ∧ Accessed c₁ s₁ key accessed s' ∧ accessed.value = .error e ∧
        accessed.cache = step.cache := by
  induction h with
  | done => cases hresult
  | failed haccessed hvalue =>
      cases hresult
      exact ⟨_, _, _, _, .refl, haccessed, hvalue, rfl⟩
  | pastEnd haccessed hvalue => cases hresult
  | short haccessed hvalue hmem hkey hshort => cases hresult
  | full haccessed hvalue hmem hkey hall hmore ih =>
      rcases ih (eq_error_of_map_eq_error hresult) with
        ⟨c₁, s₁, key, last, hevolves, hlast, hlastValue, hcache⟩
      exact ⟨c₁, s₁, key, last, (Evolves.refl.accessed haccessed).trans hevolves, hlast,
        hlastValue, hcache⟩

end Failures

variable {c : Cache (Recorded σ)} {config : Config} {s s' : Contents config} {e : Error}

theorem Accessed.mem_calls {key : BlockKey}
    {step : Step (Recorded σ) (Except Error (Option Slot))} (h : Accessed c s key step s')
    (hvalue : step.value = .error e) :
    ⟨key, (c.supply key).answer⟩ ∈ step.cache.source.calls := by
  cases h with
  | failed | oversized => exact List.mem_cons_self
  | hit | pastEnd | admitted => cases hvalue

/-- Within the 64-bit offsets, only a fetch can make a read fail. -/
theorem ReadDone.exists_cause {fd : FileDescriptor} {offset : ByteOffset} {buf : Bytes}
    {step : Step (Recorded σ) (Reading (Except Error Nat))} (h : ReadDone c s fd offset buf step s')
    (hresult : step.value.result = .error e) :
    (UInt64.size <= offset.number.toNat + buf.length ∧
        e = .ofRange (.overflow offset buf.length)) ∨
      exists (c₁ : Cache (Recorded σ)) (s₁ : Contents config) (key : BlockKey),
        Evolves c s c₁ s₁ ∧ ⟨key, (c₁.supply key).answer⟩ ∈ step.cache.source.calls ∧
          Cause config ⟨key, (c₁.supply key).answer⟩ e := by
  cases h with
  | refused hover =>
      cases hresult
      exact .inl ⟨hover, rfl⟩
  | empty hnil => cases hresult
  | failed htiled hpieces hfailed =>
      rcases hpieces.exists_failed hresult with
        ⟨c₁, s₁, key, accessed, hevolves, haccessed, hvalue, hcache⟩
      refine .inr ⟨c₁, s₁, key, hevolves, ?_, haccessed.cause hvalue⟩
      rw [<- hcache]
      exact haccessed.mem_calls hvalue
  | finished htiled hpieces hfinished =>
      have hresult' := hfinished.symm.trans hresult
      cases hresult'

theorem Coherent.recorded {σ : Type} {c : Cache σ} (h : Coherent config c s) :
    Coherent config c.recorded s :=
  ⟨h.toAgree, h.config_eq⟩

theorem read_twin_completes {σ : Type} [BlockSource σ] {c : Cache σ} (hvalid : config.Valid)
    (h : Coherent config c s) (fd : FileDescriptor) (offset : ByteOffset) (buf : Bytes) :
    Completes (c.recorded.read fd offset buf) fun twin =>
      c.read fd offset buf = .ok twin.unrecorded ∧
        exists s', ReadDone c.recorded s fd offset buf twin s' ∧
          Coherent config twin.cache s' := by
  rcases read_completes hvalid h.recorded fd offset buf with ⟨twin, htwin, hread⟩
  exact ⟨twin, htwin, read_of_recorded htwin, hread⟩

end Cache
end BlockCache

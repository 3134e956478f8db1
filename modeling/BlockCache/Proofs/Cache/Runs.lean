import BlockCache.Proofs.Cache.Drops
import BlockCache.Proofs.Cache.Reads
import BlockCache.Cache.Run

/-!
# Runs of coherent caches

Every operation of a coherent cache completes and leaves a coherent cache. On the way the
cache evolves by accesses, by dropping blocks and by counting, and in no other way; what
these keep is kept by every run.
-/

namespace BlockCache
namespace Cache

variable {σ : Type} {config : Config}

/-- What a cache and its blocks become by accesses, drops and counting. -/
inductive Evolves [BlockSource σ] (c : Cache σ) (s : Contents config) :
    Cache σ -> Contents config -> Prop where
  | refl : Evolves c s c s
  | accessed {c₁ : Cache σ} {s₁ s₂ : Contents config} {key : BlockKey}
      {step : Step σ (Except Error (Option Slot))} :
      Evolves c s c₁ s₁ -> Accessed c₁ s₁ key step s₂ -> Evolves c s step.cache s₂
  | dropped {c₁ : Cache σ} {s₁ : Contents config} {list : RecencyList} {index : Index}
      (slots : List Slot) :
      Evolves c s c₁ s₁ -> Evolves c s { c₁ with list := list, index := index } (s₁.removeAll slots)
  | cleared {c₁ : Cache σ} {s₁ : Contents config} {list : RecencyList} {index : Index} :
      Evolves c s c₁ s₁ -> Evolves c s { c₁ with list := list, index := index } .empty
  | counted {c₁ : Cache σ} {s₁ : Contents config} {stats : Stats} :
      Evolves c s c₁ s₁ -> Evolves c s { c₁ with stats := stats } s₁

variable [BlockSource σ] {c : Cache σ} {s : Contents config}

theorem Evolves.trans {c₁ c₂ : Cache σ} {s₁ s₂ : Contents config} (h : Evolves c s c₁ s₁)
    (h' : Evolves c₁ s₁ c₂ s₂) : Evolves c s c₂ s₂ := by
  induction h' with
  | refl => exact h
  | accessed _ haccessed ih => exact ih.accessed haccessed
  | dropped slots _ ih => exact ih.dropped slots
  | cleared _ ih => exact ih.cleared
  | counted _ ih => exact ih.counted

theorem ReadPieces.evolves {fd : FileDescriptor} {pieces : List Piece} {buf : Bytes}
    {step : Step σ (Reading (Except Error Nat))} {s' : Contents config}
    (h : ReadPieces fd pieces c s buf step s') : Evolves c s step.cache s' := by
  induction h with
  | done => exact .refl
  | failed haccessed _ => exact Evolves.refl.accessed haccessed
  | pastEnd haccessed _ => exact (Evolves.refl.accessed haccessed).counted
  | short haccessed _ _ _ _ => exact (Evolves.refl.accessed haccessed).counted
  | full haccessed _ _ _ _ _ ih => exact (Evolves.refl.accessed haccessed).trans ih

theorem ReadDone.evolves {fd : FileDescriptor} {offset : ByteOffset} {buf : Bytes}
    {step : Step σ (Reading (Except Error Nat))} {s' : Contents config}
    (h : ReadDone c s fd offset buf step s') : Evolves c s step.cache s' := by
  cases h with
  | refused _ => exact .refl
  | empty _ => exact .refl
  | failed _ hpieces _ => exact hpieces.evolves
  | finished _ hpieces _ => exact hpieces.evolves.counted

theorem Invalidated.evolves {fd : FileDescriptor} {step : Step σ Nat} {s' : Contents config}
    (h : Invalidated c s fd step s') : Evolves c s step.cache s' := by
  cases h with
  | absent _ => exact .refl
  | dropped _ _ => exact Evolves.refl.dropped _

theorem clear_coherent (hvalid : config.Valid) (h : Coherent config c s) :
    Evolves c s c.clear.cache .empty ∧ Coherent config c.clear.cache .empty := by
  refine ⟨Evolves.refl.cleared, ?_, h.config_eq⟩
  change Agree config c.list.clear .empty .empty
  rw [h.represents.clear_eq]
  exact agree_empty hvalid

def rawStep (rest : Bytes) (step : Step σ (Reading (Except Error Nat))) :
    Step σ (Reading Int) :=
  ⟨⟨returnCode step.value.result, step.value.buf ++ rest⟩, step.cache, step.events⟩

theorem readRaw_of_lt {fd : FileDescriptor} {offset : ByteOffset} {size : Nat} {buf : Bytes}
    (h : buf.length < size) :
    c.readRaw fd offset size buf = .ok ⟨⟨returnCode (.error (.invalidArgument ("size "
      ++ toString size ++ " exceeds buffer length " ++ toString buf.length))), buf⟩, c, []⟩ := by
  rw [readRaw, if_pos h]
  rfl

theorem readRaw_of_le {fd : FileDescriptor} {offset : ByteOffset} {size : Nat} {buf : Bytes}
    (h : size <= buf.length) :
    c.readRaw fd offset size buf =
      (c.read fd offset (buf.take size)).map (rawStep (buf.drop size)) := by
  rw [readRaw, if_neg (Nat.not_lt.mpr h)]
  cases c.read fd offset (buf.take size) <;> rfl

theorem readRaw_completes (hvalid : config.Valid) (h : Coherent config c s) (fd : FileDescriptor)
    (offset : ByteOffset) (size : Nat) (buf : Bytes) :
    Completes (c.readRaw fd offset size buf) fun step =>
      exists s', Evolves c s step.cache s' ∧ Coherent config step.cache s' := by
  rcases Nat.lt_or_ge buf.length size with hsize | hsize
  · rw [readRaw_of_lt hsize]
    exact Completes.ok ⟨s, .refl, h⟩
  · rw [readRaw_of_le hsize]
    apply (read_completes hvalid h fd offset (buf.take size)).map
    intro step hstep
    rcases hstep with ⟨s', hread, h'⟩
    exact ⟨s', hread.evolves, h'⟩

theorem perform_completes (hvalid : config.Valid) (h : Coherent config c s)
    (operation : Operation) :
    Completes (c.perform operation) fun step =>
      exists s', Evolves c s step.cache s' ∧ Coherent config step.cache s' := by
  cases operation with
  | read fd offset buf =>
      refine (read_completes hvalid h fd offset buf).map ?_
      rintro step ⟨s', hread, h'⟩
      exact ⟨s', hread.evolves, h'⟩
  | readRaw fd offset size buf =>
      exact (readRaw_completes hvalid h fd offset size buf).map fun _ hstep => hstep
  | invalidate fd order =>
      refine (invalidate_completes h fd order).map ?_
      rintro step ⟨s', hdropped, h'⟩
      exact ⟨s', hdropped.evolves, h'⟩
  | clear => exact Completes.ok ⟨.empty, clear_coherent hvalid h⟩

theorem run_completes (hvalid : config.Valid) (h : Coherent config c s)
    (operations : List Operation) :
    Completes (c.run operations) fun step =>
      exists s', Evolves c s step.cache s' ∧ Coherent config step.cache s' := by
  induction operations generalizing c s with
  | nil => exact Completes.ok ⟨s, .refl, h⟩
  | cons operation operations ih =>
      refine (perform_completes hvalid h operation).bind ?_
      rintro first ⟨s₁, hfirst, h₁⟩
      refine (ih h₁).bind ?_
      rintro rest ⟨s₂, hrest, h₂⟩
      exact Completes.pure ⟨s₂, hfirst.trans hrest, h₂⟩

theorem create_run_completes (hvalid : config.Valid) (source : σ) (operations : List Operation)
    {P : Step σ (List Answer) -> Prop}
    (hP : forall (c : Cache σ) (ran : Step σ (List Answer)) (s : Contents config),
      c.source = source -> Coherent config c .empty -> Evolves c .empty ran.cache s ->
        Coherent config ran.cache s -> P ran) :
    Completes (create config source) fun created =>
      Completes (created.cache.run operations) P := by
  refine (create_completes hvalid source).mono ?_
  rintro created ⟨hsource, hcreated⟩
  refine (run_completes hvalid hcreated operations).mono ?_
  rintro ran ⟨s, hevolves, hran⟩
  exact hP created.cache ran s hsource hcreated hevolves hran

end Cache
end BlockCache

import BlockCache.Proofs.Cache.Journal

/-!
# What a cache does to its list

A cache changes its recency list by the operations of the list and in no other way, and
none of them leaves the list longer than the capacity, not even in the middle of a read or
of a drop. What holds of all operations of a list therefore holds of the list of a cache.
-/

namespace BlockCache

namespace RecencyList

/-- Operations lead from `l` to another list, and none leaves more than `capacity` blocks. -/
inductive Worked (capacity : Nat) (l : RecencyList) : RecencyList -> Prop where
  | refl : Worked capacity l l
  | performed {l₁ : RecencyList} {o : Outcome Answer} (operation : Operation) :
      Worked capacity l l₁ -> l₁.perform operation = .ok o -> o.list.length <= capacity ->
      Worked capacity l o.list

variable {capacity : Nat} {l l₁ l₂ : RecencyList}

theorem Worked.trans (h : Worked capacity l l₁) (h' : Worked capacity l₁ l₂) :
    Worked capacity l l₂ := by
  induction h' with
  | refl => exact h
  | performed operation _ hperform hlength ih => exact ih.performed operation hperform hlength

theorem worked_of_eq {α : Type} {x : Except Corruption (Outcome α)} {f : α -> Answer}
    {o : Outcome α} (operation : Operation) (hx : x = .ok o)
    (hperform : l.perform operation = x.map (Outcome.map f)) (hlength : o.list.length <= capacity) :
    Worked capacity l o.list := by
  rw [hx] at hperform
  exact Worked.performed operation .refl hperform hlength

theorem worked_removeAll {maxNew maxOld : Nat} {s : CutSequence maxNew maxOld} {slots : List Slot}
    {o : Outcome Nat} (h : Represents l s) (hlength : s.items.length <= capacity)
    (hremove : l.removeAll slots = .ok o) : Worked capacity l o.list := by
  induction slots generalizing l s o with
  | nil =>
      cases hremove
      exact .refl
  | cons slot slots ih =>
      rcases exists_of_bind_eq_ok hremove with ⟨first, hfirst, htail⟩
      rcases exists_of_bind_eq_ok htail with ⟨rest, hrest, hwhole⟩
      cases hwhole
      rcases (h.remove_completes slot).of_eq hfirst with ⟨-, hrepresents⟩
      have hless : (s.remove slot).items.length <= capacity :=
        Nat.le_trans (List.length_filter_le _ _) hlength
      have hlist : first.list.length <= capacity := by
        rw [hrepresents.arranged.length_eq, CutSequence.items_zones]
        exact hless
      have hothers := ih hrepresents hless hrest
      exact (worked_of_eq (.remove slot) hfirst rfl hlist).trans hothers

end RecencyList

namespace Cache

open RecencyList (Worked worked_of_eq worked_removeAll)

variable {σ : Type} {config : Config} {c : Cache σ} {s : Contents config}

theorem list_of_create {source : σ} {created : Step σ Unit}
    (h : create config source = .ok created) :
    created.cache.list = .empty config.maxNew.toNat config.maxOld.toNat := by
  rcases exists_of_bind_eq_ok h with ⟨_, -, hcreated⟩
  cases hcreated
  rfl

theorem Coherent.length_list_le (h : Coherent config c s) :
    c.list.length <= config.capacity.toNat := by
  have hlength : c.list.length = s.items.length := h.length_eq
  rw [hlength]
  exact h.fits.length_le

theorem hit_worked {key : BlockKey} {slot : Slot} {step : Step σ Slot} (h : Coherent config c s)
    (hhit : c.hit key.fd key.index slot = .ok step) :
    Worked config.capacity.toNat c.list step.cache.list := by
  rcases (hit_completes h key slot).of_eq hhit with ⟨_, _, -, hcoherent⟩
  rcases exists_of_bind_eq_ok hhit with ⟨touched, htouch, hstep⟩
  cases hstep
  exact worked_of_eq (.touch slot) htouch rfl hcoherent.length_list_le

theorem evict_worked {step : Step σ (Option Block)} {capacity : Nat} (hevict : c.evict = .ok step)
    (hlength : step.cache.list.length <= capacity) :
    Worked capacity c.list step.cache.list := by
  rcases exists_of_bind_eq_ok hevict with ⟨candidate, -, hrest⟩
  cases candidate with
  | none =>
      cases hrest
      exact .refl
  | some slot =>
      rcases exists_of_bind_eq_ok hrest with ⟨removed, hremove, hstep⟩
      cases hvalue : removed.value with
      | none =>
          rw [hvalue] at hstep
          cases hstep
          exact worked_of_eq (.remove slot) hremove rfl hlength
      | some block =>
          rw [hvalue] at hstep
          cases hstep
          exact worked_of_eq (.remove slot) hremove rfl hlength

theorem makeRoom_worked {step : Step σ (Option Block)} {s' : Contents config}
    (h' : Coherent config step.cache s') (hroom : c.makeRoom = .ok step) :
    Worked config.capacity.toNat c.list step.cache.list := by
  unfold makeRoom at hroom
  split at hroom
  · exact evict_worked hroom h'.length_list_le
  · cases hroom
    exact .refl

theorem adopt_worked {step : Step σ Slot} (hvalid : config.Valid) (h : Coherent config c s)
    (block : Block) (habsent : Absent s block.key)
    (hstorable : Storable config block.data) (hadopt : c.adopt block = .ok step) :
    Worked config.capacity.toNat c.list step.cache.list := by
  rcases (adopt_completes hvalid h block habsent hstorable).of_eq hadopt with
    ⟨_, _, _, _, _, _, -, -, hcoherent⟩
  rcases exists_of_bind_eq_ok hadopt with ⟨room, hroom, hrest⟩
  rcases exists_of_bind_eq_ok hrest with ⟨pushed, hpush, hstep⟩
  cases hstep
  rcases (makeRoom_completes hvalid h).of_eq hroom with ⟨s', -, h'⟩
  have hpushed := worked_of_eq (.push block) hpush rfl hcoherent.length_list_le
  exact (makeRoom_worked h' hroom).trans hpushed

variable [BlockSource σ]

theorem miss_worked {key : BlockKey} {step : Step σ (Except Error (Option Slot))}
    (hvalid : config.Valid) (h : Coherent config c s) (habsent : Absent s key)
    (hmiss : c.miss key.fd key.index = .ok step) :
    Worked config.capacity.toNat c.list step.cache.list := by
  rw [miss_eq, h.config_eq] at hmiss
  cases hanswer : (c.supply key).answer with
  | error e =>
      rw [hanswer] at hmiss
      cases hmiss
      exact .refl
  | ok data =>
      rw [hanswer] at hmiss
      dsimp only at hmiss
      split at hmiss
      · cases hmiss
        exact .refl
      · rename_i hsize
        split at hmiss
        · cases hmiss
          exact .refl
        · rename_i hempty
          have hstorable : Storable config data :=
            ⟨fun hnil => hempty (List.isEmpty_iff.mpr hnil), Nat.le_of_not_lt hsize⟩
          rcases exists_of_bind_eq_ok hmiss with ⟨adopted, hadopt, hstep⟩
          cases hstep
          let block : Block := { fd := key.fd, index := key.index, counter := 0, data := data }
          have hadopted := adopt_worked hvalid (h.asked key) block habsent hstorable hadopt
          exact hadopted

theorem access_worked {step : Step σ (Except Error (Option Slot))} (hvalid : config.Valid)
    (h : Coherent config c s) (key : BlockKey)
    (haccess : c.access key.fd key.index = .ok step) :
    Worked config.capacity.toNat c.list step.cache.list := by
  unfold access at haccess
  cases hfind : c.index.find? key with
  | none =>
      have hslot : c.slot? key.fd key.index = none := hfind
      rw [hslot] at haccess
      exact miss_worked hvalid h (h.find?_eq_none_iff.mp hfind) haccess
  | some slot =>
      have hslot : c.slot? key.fd key.index = some slot := hfind
      rw [hslot] at haccess
      rcases exists_of_bind_eq_ok haccess with ⟨hit, hhit, hstep⟩
      cases hstep
      exact hit_worked h hhit

theorem readPieces_worked {fd : FileDescriptor} {pieces : List Piece} {buf : Bytes}
    {step : Step σ (Reading (Except Error Nat))} (hvalid : config.Valid) (h : Coherent config c s)
    (hread : readPieces fd pieces c buf = .ok step) :
    Worked config.capacity.toNat c.list step.cache.list := by
  induction pieces generalizing c s buf step with
  | nil =>
      cases hread
      exact .refl
  | cons piece rest ih =>
      rcases exists_of_bind_eq_ok hread with ⟨accessed, haccess, hread⟩
      have hfirst := access_worked hvalid h ⟨fd, piece.index⟩ haccess
      rcases (access_completes hvalid h ⟨fd, piece.index⟩).of_eq haccess with ⟨s', -, h'⟩
      split at hread
      · cases hread
        exact hfirst
      · cases hread
        exact hfirst
      · split at hread
        · cases hread
          exact hfirst
        · rcases exists_of_bind_eq_ok hread with ⟨copied, -, hread⟩
          split at hread
          · cases hread
            exact hfirst
          · rcases exists_of_bind_eq_ok hread with ⟨more, hmore, hstep⟩
            cases hstep
            have hrest := ih h' hmore
            exact hfirst.trans hrest

theorem read_worked {fd : FileDescriptor} {offset : ByteOffset} {buf : Bytes}
    {step : Step σ (Reading (Except Error Nat))} (hvalid : config.Valid) (h : Coherent config c s)
    (hread : c.read fd offset buf = .ok step) :
    Worked config.capacity.toNat c.list step.cache.list := by
  unfold read at hread
  split at hread
  · cases hread
    exact .refl
  · cases hread
    exact .refl
  · rcases exists_of_bind_eq_ok hread with ⟨pieces, hpieces, hstep⟩
    have hworked := readPieces_worked hvalid h hpieces
    split at hstep
    · cases hstep
      exact hworked
    · cases hstep
      exact hworked

theorem perform_worked {operation : Operation} {step : Step σ Answer} (hvalid : config.Valid)
    (h : Coherent config c s) (hperform : c.perform operation = .ok step) :
    Worked config.capacity.toNat c.list step.cache.list := by
  cases operation with
  | read fd offset buf =>
      rcases exists_of_map_eq_ok hperform with ⟨read, hread, rfl⟩
      exact read_worked hvalid h hread
  | readRaw fd offset size buf =>
      rcases exists_of_map_eq_ok hperform with ⟨raw, hraw, rfl⟩
      rcases Nat.lt_or_ge buf.length size with hsize | hsize
      · rw [readRaw_of_lt hsize] at hraw
        cases hraw
        exact .refl
      · rw [readRaw_of_le hsize] at hraw
        rcases exists_of_map_eq_ok hraw with ⟨read, hread, rfl⟩
        exact read_worked hvalid h hread
  | invalidate fd order =>
      rcases exists_of_map_eq_ok hperform with ⟨dropped, hdropped, rfl⟩
      unfold invalidate at hdropped
      split at hdropped
      · cases hdropped
        exact .refl
      · rcases exists_of_bind_eq_ok hdropped with ⟨removed, hremoved, hstep⟩
        cases hstep
        exact worked_removeAll h.represents h.fits.length_le hremoved
  | clear =>
      cases hperform
      exact Worked.performed .clear .refl rfl (Nat.zero_le _)

theorem run_worked {operations : List Operation} {ran : Step σ (List Answer)}
    (hvalid : config.Valid) (h : Coherent config c s) (hrun : c.run operations = .ok ran) :
    Worked config.capacity.toNat c.list ran.cache.list := by
  induction operations generalizing c s ran with
  | nil =>
      cases hrun
      exact .refl
  | cons operation operations ih =>
      rcases exists_of_bind_eq_ok hrun with ⟨first, hfirst, htail⟩
      rcases exists_of_bind_eq_ok htail with ⟨rest, hrest, hwhole⟩
      cases hwhole
      rcases (perform_completes hvalid h operation).of_eq hfirst with ⟨s₁, -, h₁⟩
      have hothers := ih h₁ hrest
      exact (perform_worked hvalid h hfirst).trans hothers

theorem Trail.worked {log : List (Moment σ)} {c₁ : Cache σ} (htrail : Trail c log c₁)
    (hvalid : config.Valid) (h : Coherent config c s) :
    Worked config.capacity.toNat c.list c₁.list ∧ exists s₁, Coherent config c₁ s₁ := by
  induction htrail with
  | refl => exact ⟨.refl, s, h⟩
  | accessed hpast haccess ih =>
      rename_i key step
      rcases ih with ⟨hworked, s₁, h₁⟩
      rcases (access_completes hvalid h₁ key).of_eq haccess with ⟨s₂, -, h₂⟩
      exact ⟨hworked.trans (access_worked hvalid h₁ key haccess), s₂, h₂⟩
  | performed hpast hperform ih =>
      rename_i operation step
      rcases ih with ⟨hworked, s₁, h₁⟩
      rcases (perform_completes hvalid h₁ operation).of_eq hperform with ⟨s₂, -, h₂⟩
      exact ⟨hworked.trans (perform_worked hvalid h₁ hperform), s₂, h₂⟩

end Cache
end BlockCache

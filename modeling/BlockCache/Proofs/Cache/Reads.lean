import BlockCache.Proofs.Cache.Accesses
import BlockCache.Proofs.Tiling
import BlockCache.Cache.Read

/-!
# What a read does

A read accesses the blocks of its range one after the other. `ReadPieces` follows it piece
by piece, through the accesses it makes, and `ReadDone` is the whole read. Reads of a
coherent cache complete: every copy stays within the buffer, and no block that an access
answers is missing.
-/

namespace BlockCache

def patch (buf : Bytes) (pos : Nat) (bytes : Bytes) : Bytes :=
  buf.take pos ++ bytes ++ buf.drop (pos + bytes.length)

theorem length_patch {buf bytes : Bytes} {pos : Nat} (h : pos + bytes.length <= buf.length) :
    (patch buf pos bytes).length = buf.length := by
  simp only [patch, List.length_append, List.length_take, List.length_drop]
  omega

theorem patch_nil (buf : Bytes) (pos : Nat) : patch buf pos [] = buf := by
  simp [patch]

theorem patch_patch {buf xs : Bytes} {pos : Nat} (h : pos + xs.length <= buf.length) (ys : Bytes) :
    patch (patch buf pos xs) (pos + xs.length) ys = patch buf pos (xs ++ ys) := by
  have hfront : (buf.take pos ++ xs).length = pos + xs.length := by
    rw [List.length_append, List.length_take]
    omega
  have htake : (patch buf pos xs).take (pos + xs.length) = buf.take pos ++ xs :=
    List.take_left' hfront
  have hdrop : (patch buf pos xs).drop (pos + xs.length) = buf.drop (pos + xs.length) :=
    List.drop_left' hfront
  calc patch (patch buf pos xs) (pos + xs.length) ys
      = (patch buf pos xs).take (pos + xs.length) ++ ys ++
          ((patch buf pos xs).drop (pos + xs.length)).drop ys.length := by
        rw [List.drop_drop]
        rfl
    _ = buf.take pos ++ xs ++ ys ++ (buf.drop (pos + xs.length)).drop ys.length := by
        rw [htake, hdrop]
    _ = patch buf pos (xs ++ ys) := by
        rw [List.drop_drop, patch, List.length_append, Nat.add_assoc, List.append_assoc _ xs]

/-- The bytes that a piece wants of a block's data, as far as there are any. -/
def Piece.wanted (piece : Piece) (data : Bytes) : Bytes :=
  (data.drop piece.start).take piece.len

theorem Piece.length_wanted (piece : Piece) (data : Bytes) :
    (piece.wanted data).length = piece.available data := by
  simp [wanted, available]

theorem Piece.length_patch_wanted {piece : Piece} {buf : Bytes}
    (h : piece.dest + piece.len <= buf.length) (data : Bytes) :
    (patch buf piece.dest (piece.wanted data)).length = buf.length := by
  have hlen : piece.available data <= piece.len := Nat.min_le_left _ _
  apply length_patch
  rw [length_wanted]
  omega

theorem Piece.copy_eq {piece : Piece} {buf : Bytes} (h : piece.dest + piece.len <= buf.length)
    (data : Bytes) :
    piece.copy data buf = .ok (patch buf piece.dest (piece.wanted data)) := by
  have hlen : piece.available data <= piece.len := Nat.min_le_left _ _
  have hdata : piece.available data <= data.length - piece.start := Nat.min_le_right _ _
  have hwanted : (data.drop piece.start).take (piece.available data) = piece.wanted data := by
    rw [wanted, available, List.take_eq_take_iff]
    simp
  unfold copy
  by_cases hzero : piece.available data = 0
  · have hnil : piece.wanted data = [] := by
      rw [<- List.length_eq_zero_iff, length_wanted, hzero]
    simp [hzero, hnil, patch]
  · have hinside : piece.dest + piece.available data <= buf.length ∧
        piece.start + piece.available data <= data.length := by
      omega
    simp only [if_neg hzero, if_pos hinside, patch, length_wanted, hwanted]

namespace Cache

variable {σ : Type} [BlockSource σ] {config : Config} {c : Cache σ} {s : Contents config}

theorem Accessed.exists_resident {key : BlockKey} {step : Step σ (Except Error (Option Slot))}
    {s' : Contents config} {slot : Slot} (h : Accessed c s key step s')
    (hvalue : step.value = .ok (some slot)) :
    exists block, (slot, block) ∈ s'.items ∧ block.key = key := by
  cases h with
  | hit hmem hkey =>
      cases hvalue
      exact ⟨_, (CutSequence.items_touch_perm hmem).mem_iff.mpr List.mem_cons_self,
        (CutSequence.key_counted s _ _).trans hkey⟩
  | failed habsent hanswer => cases hvalue
  | oversized habsent hanswer hsize => cases hvalue
  | pastEnd habsent hanswer => cases hvalue
  | admitted habsent hanswer hstorable hroom fresh =>
      cases hvalue
      exact ⟨_, List.mem_cons_self, rfl⟩

/-- How a read goes on from its first piece, with the accesses it makes. -/
inductive ReadPieces (fd : FileDescriptor) :
    List Piece -> Cache σ -> Contents config -> Bytes ->
      Step σ (Reading (Except Error Nat)) -> Contents config -> Prop where
  | done {c : Cache σ} {s : Contents config} {buf : Bytes} :
      ReadPieces fd [] c s buf ⟨⟨.ok 0, buf⟩, c, []⟩ s
  | failed {piece : Piece} {rest : List Piece} {c : Cache σ} {s s' : Contents config}
      {buf : Bytes} {accessed : Step σ (Except Error (Option Slot))} {e : Error} :
      Accessed c s ⟨fd, piece.index⟩ accessed s' -> accessed.value = .error e ->
      ReadPieces fd (piece :: rest) c s buf ⟨⟨.error e, buf⟩, accessed.cache, accessed.events⟩ s'
  | pastEnd {piece : Piece} {rest : List Piece} {c : Cache σ} {s s' : Contents config}
      {buf : Bytes} {accessed : Step σ (Except Error (Option Slot))} :
      Accessed c s ⟨fd, piece.index⟩ accessed s' -> accessed.value = .ok none ->
      ReadPieces fd (piece :: rest) c s buf
        ⟨⟨.ok 0, buf⟩, accessed.cache.countShort, accessed.events⟩ s'
  | short {piece : Piece} {rest : List Piece} {c : Cache σ} {s s' : Contents config}
      {buf : Bytes} {accessed : Step σ (Except Error (Option Slot))} {slot : Slot}
      {block : Block} :
      Accessed c s ⟨fd, piece.index⟩ accessed s' -> accessed.value = .ok (some slot) ->
      (slot, block) ∈ s'.items -> block.key = ⟨fd, piece.index⟩ ->
      piece.available block.data < piece.len ->
      ReadPieces fd (piece :: rest) c s buf
        ⟨⟨.ok (piece.available block.data), patch buf piece.dest (piece.wanted block.data)⟩,
          accessed.cache.countShort, accessed.events⟩ s'
  | full {piece : Piece} {rest : List Piece} {c : Cache σ} {s s' s'' : Contents config}
      {buf : Bytes} {accessed : Step σ (Except Error (Option Slot))} {slot : Slot}
      {block : Block} {more : Step σ (Reading (Except Error Nat))} :
      Accessed c s ⟨fd, piece.index⟩ accessed s' -> accessed.value = .ok (some slot) ->
      (slot, block) ∈ s'.items -> block.key = ⟨fd, piece.index⟩ ->
      piece.available block.data = piece.len ->
      ReadPieces fd rest accessed.cache s' (patch buf piece.dest (piece.wanted block.data))
        more s'' ->
      ReadPieces fd (piece :: rest) c s buf
        ⟨⟨more.value.result.map fun copied => piece.len + copied, more.value.buf⟩, more.cache,
          accessed.events ++ more.events⟩ s''

theorem readPieces_completes (hvalid : config.Valid) {fd : FileDescriptor} {pieces : List Piece}
    {buf : Bytes} (h : Coherent config c s)
    (hinside : forall piece, piece ∈ pieces -> piece.dest + piece.len <= buf.length) :
    Completes (readPieces fd pieces c buf) fun step =>
      exists s', ReadPieces fd pieces c s buf step s' ∧ Coherent config step.cache s' := by
  induction pieces generalizing c s buf with
  | nil => exact Completes.ok ⟨s, .done, h⟩
  | cons piece rest ih =>
      have hpiece := hinside piece List.mem_cons_self
      refine (access_completes hvalid h ⟨fd, piece.index⟩).bind ?_
      rintro accessed ⟨s', haccessed, h'⟩
      cases hvalue : accessed.value with
      | error e => exact Completes.pure ⟨s', .failed haccessed hvalue, h'⟩
      | ok found =>
          cases found with
          | none => exact Completes.pure ⟨s', .pastEnd haccessed hvalue, h'.toAgree, h'.config_eq⟩
          | some slot =>
              rcases haccessed.exists_resident hvalue with ⟨block, hmem, hkey⟩
              simp only [h'.block?_eq hmem]
              refine Completes.bind_eq (Piece.copy_eq hpiece block.data) ?_
              by_cases hshort : piece.available block.data < piece.len
              · rw [if_pos hshort]
                exact Completes.pure
                  ⟨s', .short haccessed hvalue hmem hkey hshort, h'.toAgree, h'.config_eq⟩
              · rw [if_neg hshort]
                have hall : piece.available block.data = piece.len :=
                  Nat.le_antisymm (Nat.min_le_left _ _) (Nat.le_of_not_lt hshort)
                have hrest : forall other, other ∈ rest -> other.dest + other.len <=
                    (patch buf piece.dest (piece.wanted block.data)).length := by
                  intro other hother
                  rw [Piece.length_patch_wanted hpiece]
                  exact hinside other (List.mem_cons_of_mem _ hother)
                refine (ih h' hrest).bind ?_
                rintro more ⟨s'', hmore, h''⟩
                rw [hall]
                exact Completes.pure ⟨s'', .full haccessed hvalue hmem hkey hall hmore, h''⟩

/-- The ways in which a read of `buf` at `offset` can go. -/
inductive ReadDone (c : Cache σ) (s : Contents config) (fd : FileDescriptor) (offset : ByteOffset)
    (buf : Bytes) : Step σ (Reading (Except Error Nat)) -> Contents config -> Prop where
  | refused : UInt64.size <= offset.number.toNat + buf.length ->
      ReadDone c s fd offset buf
        ⟨⟨.error (.ofRange (.overflow offset buf.length)), buf⟩, c, []⟩ s
  | empty : buf = [] -> ReadDone c s fd offset buf ⟨⟨.ok 0, buf⟩, c, []⟩ s
  | failed {pieces : List Piece} {step : Step σ (Reading (Except Error Nat))}
      {s' : Contents config} {e : Error} :
      Tiled config.blockSize.toNat offset.number.toNat (offset.number.toNat + buf.length)
        offset.number.toNat pieces ->
      ReadPieces fd pieces c s buf step s' -> step.value.result = .error e ->
      ReadDone c s fd offset buf step s'
  | finished {pieces : List Piece} {step : Step σ (Reading (Except Error Nat))}
      {s' : Contents config} {copied : Nat} :
      Tiled config.blockSize.toNat offset.number.toNat (offset.number.toNat + buf.length)
        offset.number.toNat pieces ->
      ReadPieces fd pieces c s buf step s' -> step.value.result = .ok copied ->
      ReadDone c s fd offset buf
        { step with
          cache := { step.cache with
            stats := { step.cache.stats with bytesRead := step.cache.stats.bytesRead + copied } }
          events := step.events ++ [.read fd offset buf.length copied] } s'

theorem read_completes (hvalid : config.Valid) (h : Coherent config c s) (fd : FileDescriptor)
    (offset : ByteOffset) (buf : Bytes) :
    Completes (c.read fd offset buf) fun step =>
      exists s', ReadDone c s fd offset buf step s' ∧ Coherent config step.cache s' := by
  unfold read
  rw [h.config_eq]
  rcases Span.ofRange_cases hvalid.blockSize_pos offset buf.length with
    ⟨hlen, hrange⟩ | ⟨hpos, hfits, span, hrange, hoffset, hstop, hsize⟩ | ⟨hpos, hover, hrange⟩
  · rw [hrange]
    exact Completes.pure ⟨s, .empty (List.length_eq_zero_iff.mp hlen), h⟩
  · have htiled := span.tiled_pieces
    rw [hoffset, hstop, hsize] at htiled
    rw [hrange]
    refine (readPieces_completes hvalid h fun piece hpiece => htiled.inside_length hpiece).bind ?_
    rintro step ⟨s', hpieces, h'⟩
    cases hresult : step.value.result with
    | error e => exact Completes.pure ⟨s', .failed htiled hpieces hresult, h'⟩
    | ok copied =>
        exact Completes.pure ⟨s', .finished htiled hpieces hresult, h'.toAgree, h'.config_eq⟩
  · rw [hrange]
    exact Completes.pure ⟨s, .refused hover, h⟩

end Cache
end BlockCache

import BlockCache.Proofs.Cache.Fetches
import BlockCache.Proofs.Cache.SegmentBalance
import BlockCache.Source.Disk

/-!
# Exact ranges

Over the whole range of 64-bit offsets, the pieces of a span are one for each block that
the range touches, and every byte of the range is in exactly one of them, at the place where
a reader will look for it. No operation that makes the pieces wraps. Every block that a read
asks for begins at a 64-bit offset, so a table of files never has to refuse one that does not.
-/

namespace BlockCache

/-- The byte at `position` of the file is one that the piece asks for. -/
def Piece.Contains (piece : Piece) (size position : Nat) : Prop :=
  piece.index.number.toNat * size + piece.start <= position ∧
    position < piece.index.number.toNat * size + piece.start + piece.len

structure Piece.Placed (piece : Piece) (size origin : Nat) : Prop where
  len_pos : 0 < piece.len
  within : piece.start + piece.len <= size
  dest_eq : piece.index.number.toNat * size + piece.start = origin + piece.dest

variable {size origin stop pos : Nat} {pieces : List Piece} {piece piece' : Piece}

theorem Piece.Placed.div_eq {position : Nat} (h : piece.Placed size origin)
    (hcontains : piece.Contains size position) :
    position / size = piece.index.number.toNat := by
  have hwithin := h.within
  rcases hcontains with ⟨hle, hlt⟩
  apply Nat.div_eq_of_lt_le
  · omega
  · rw [Nat.succ_mul]
    omega

theorem Piece.Placed.position_eq {position : Nat} (h : piece.Placed size origin)
    (hcontains : piece.Contains size position) :
    piece.start + (position - origin - piece.dest) = position % size ∧
      piece.dest <= position - origin ∧ position - origin < piece.dest + piece.len := by
  have hdest := h.dest_eq
  have hdiv := Nat.div_add_mod' position size
  rw [h.div_eq hcontains] at hdiv
  rcases hcontains with ⟨hle, hlt⟩
  omega

theorem Tiled.placed_first {rest : List Piece} (hsize : 0 < size) (horigin : origin <= pos)
    (h : Tiled size origin stop pos (piece :: rest)) : piece.Placed size origin := by
  have hlen := h.len_pos hsize List.mem_cons_self
  rcases h with ⟨hlt, hindex, hstart, hlength, hdest, -⟩
  have hmod := Nat.mod_lt pos hsize
  have hdiv := Nat.div_add_mod' pos size
  constructor
  · exact hlen
  · omega
  · rw [hindex, hstart, hdest]
    omega

theorem Tiled.placed (hsize : 0 < size) (horigin : origin <= pos)
    (h : Tiled size origin stop pos pieces) (hpiece : piece ∈ pieces) :
    piece.Placed size origin := by
  induction pieces generalizing pos with
  | nil => cases hpiece
  | cons first rest ih =>
      rcases List.mem_cons.mp hpiece with rfl | hrest
      · exact h.placed_first hsize horigin
      · exact ih (Nat.le_trans horigin (Nat.le_add_right _ _)) h.2.2.2.2.2 hrest

theorem Tiled.exists_contains {position : Nat} (h : Tiled size origin stop pos pieces)
    (hlo : pos <= position) (hhi : position < stop) :
    exists piece, piece ∈ pieces ∧ piece.Contains size position := by
  induction pieces generalizing pos with
  | nil =>
      have hend : pos = stop := h
      omega
  | cons first rest ih =>
      rcases h with ⟨-, hindex, hstart, -, -, hrest⟩
      have hdiv := Nat.div_add_mod' pos size
      by_cases hfirst : position < pos + first.len
      · refine ⟨first, List.mem_cons_self, ?_⟩
        rw [Piece.Contains, hindex, hstart, hdiv]
        exact ⟨hlo, hfirst⟩
      · rcases ih hrest (Nat.le_of_not_lt hfirst) with ⟨piece, hpiece, hcontains⟩
        exact ⟨piece, List.mem_cons_of_mem first hpiece, hcontains⟩

theorem Tiled.eq_of_index_eq (hsize : 0 < size) (h : Tiled size origin stop pos pieces)
    (hpiece : piece ∈ pieces) (hpiece' : piece' ∈ pieces)
    (hindex : piece.index.number.toNat = piece'.index.number.toNat) : piece = piece' := by
  have hdistinct : (pieces.map fun piece => piece.index.number.toNat).Nodup := by
    apply List.pairwise_map.mpr
    apply (h.pairwise_index hsize).imp
    intro a b hlt
    exact Nat.ne_of_lt (UInt64.lt_iff_toNat_lt.mp hlt)
  exact List.inj_on_of_nodup_map hdistinct hpiece hpiece' hindex

theorem Tiled.eq_of_contains {position : Nat} (hsize : 0 < size) (horigin : origin <= pos)
    (h : Tiled size origin stop pos pieces) (hpiece : piece ∈ pieces) (hpiece' : piece' ∈ pieces)
    (hcontains : piece.Contains size position) (hcontains' : piece'.Contains size position) :
    piece = piece' := by
  apply h.eq_of_index_eq hsize hpiece hpiece'
  rw [<- (h.placed hsize horigin hpiece).div_eq hcontains,
    <- (h.placed hsize horigin hpiece').div_eq hcontains']

/-!
# Checked arithmetic

The numbers of a span once more, with operations that have no value where words would wrap.
The end of a block is a natural number here, so nothing is capped.
-/

def Word.sub? (a b : UInt64) : Option UInt64 :=
  if b <= a then some (a - b) else none

theorem Word.sub?_of_le {a b : UInt64} (h : b <= a) : Word.sub? a b = some (a - b) :=
  if_pos h

namespace Span

def last? (s : Span) : Option BlockIndex := do
  let top <- Word.sub? s.stop 1
  return ⟨top / s.size⟩

def count? (s : Span) : Option UInt64 := do
  let last <- s.last?
  let more <- Word.sub? last.number s.first.number
  Word.add? more 1

def pieceAt? (s : Span) (index : UInt64) : Option Piece := do
  let blockStart <- Word.mul? index s.size
  let lo := max blockStart s.offset
  let hi := UInt64.ofNat (min (blockStart.toNat + s.size.toNat) s.stop.toNat)
  let start <- Word.sub? lo blockStart
  let len <- Word.sub? hi lo
  let dest <- Word.sub? lo s.offset
  return { index := ⟨index⟩, start := start.toNat, len := len.toNat, dest := dest.toNat }

theorem last?_eq (s : Span) : s.last? = some s.last := by
  have hone : (1 : UInt64) <= s.stop := by
    rw [UInt64.le_iff_toNat_le]
    exact Nat.succ_le_of_lt (Nat.lt_of_le_of_lt (Nat.zero_le _) s.offset_lt)
  rw [last?, Word.sub?_of_le hone]
  rfl

theorem count?_eq (s : Span) : s.count? = some s.count := by
  have hle : s.first.number <= s.last.number := by
    rw [UInt64.le_iff_toNat_le, toNat_first, toNat_last]
    exact s.first_le_last
  have hadd : Word.add? (s.last.number - s.first.number) 1 = some s.count := by
    rw [Word.add?_eq_some_iff, toNat_count, UInt64.toNat_sub_of_le _ _ hle, toNat_first,
      toNat_last]
    rfl
  rw [count?, last?_eq]
  show (Word.sub? s.last.number s.first.number).bind _ = _
  rw [Word.sub?_of_le hle]
  exact hadd

variable {s : Span} {k : Nat}

theorem pieceStop_eq (hlast : k <= (s.stop.toNat - 1) / s.blockSize.toNat) :
    min (Word.addCapped (UInt64.ofNat k * s.size) s.size) s.stop =
      UInt64.ofNat (min ((UInt64.ofNat k * s.size).toNat + s.size.toNat) s.stop.toNat) := by
  have hstop : s.stop.toNat < UInt64.size := s.stop.toNat_lt
  have hsame : min ((UInt64.ofNat k * s.size).toNat + s.size.toNat) s.stop.toNat = s.stopIn k := by
    rw [toNat_blockStart hlast, toNat_size, stopIn]
  have hfits : s.stopIn k < UInt64.size := Nat.lt_of_le_of_lt (Nat.min_le_right _ _) hstop
  rw [<- UInt64.toNat_inj, toNat_pieceStop hlast, hsame]
  exact (UInt64.toNat_ofNat_of_lt hfits).symm

theorem pieceAt?_eq (hfirst : s.offset.toNat / s.blockSize.toNat <= k)
    (hlast : k <= (s.stop.toNat - 1) / s.blockSize.toNat) :
    s.pieceAt? (UInt64.ofNat k) = some (s.pieceAt (UInt64.ofNat k)) := by
  have hmul : Word.mul? (UInt64.ofNat k) s.size = some (UInt64.ofNat k * s.size) := by
    rw [Word.mul?_eq_some_iff, toNat_blockStart hlast, toNat_ofNat_of_le_last hlast, toNat_size]
  have hstop := pieceStop_eq hlast
  have hle := pieceStart_le_pieceStop hfirst hlast
  rw [hstop] at hle
  unfold pieceAt?
  rw [hmul]
  simp only [Option.bind_eq_bind, Option.bind_some,
    Word.sub?_of_le (blockStart_le_pieceStart hlast), Word.sub?_of_le hle,
    Word.sub?_of_le (offset_le_pieceStart hlast), pieceAt, hstop]
  rfl

/-!
# Pieces and their blocks
-/

theorem exists_eq_pieceAt {piece : Piece} (hpiece : piece ∈ s.pieces) :
    exists k, s.offset.toNat / s.blockSize.toNat <= k ∧
      k <= (s.stop.toNat - 1) / s.blockSize.toNat ∧ piece = s.pieceAt (UInt64.ofNat k) := by
  rw [pieces_eq] at hpiece
  rcases List.mem_map.mp hpiece with ⟨k, hk, rfl⟩
  have hle := s.first_le_last
  rw [List.mem_range'_1, toNat_count] at hk
  exact ⟨k, hk.1, by omega, rfl⟩

theorem map_index_pieces (s : Span) :
    s.pieces.map (fun piece => piece.index.number.toNat) =
      List.range' (s.offset.toNat / s.blockSize.toNat) s.count.toNat := by
  have hle := s.first_le_last
  rw [pieces_eq, List.map_map]
  conv => rhs; rw [<- List.map_id (List.range' _ _)]
  apply List.map_congr_left
  intro k hk
  rw [List.mem_range'_1, toNat_count] at hk
  exact toNat_ofNat_of_le_last (s := s) (by omega)

theorem byteOffset?_isSome {piece : Piece} (hpiece : piece ∈ s.pieces) :
    (piece.index.byteOffset? s.blockSize).isSome = true := by
  rcases exists_eq_pieceAt hpiece with ⟨k, hfirst, hlast, rfl⟩
  rw [Option.isSome_iff_exists]
  refine ⟨⟨UInt64.ofNat k * s.size⟩, BlockIndex.byteOffset?_eq_some_iff.mpr ?_⟩
  show (UInt64.ofNat k).toNat * s.blockSize.toNat = (UInt64.ofNat k * s.size).toNat
  rw [toNat_blockStart hlast, toNat_ofNat_of_le_last hlast]

theorem blockSize_of_ofRange {offset : ByteOffset} {len : Nat} {blockSize : UInt32}
    (h : ofRange offset len blockSize = .ok (some s)) : s.blockSize = blockSize := by
  have hpos : 0 < blockSize.toNat := by
    apply Nat.pos_of_ne_zero
    intro hzero
    have hblock : blockSize = 0 := UInt32.toNat_inj.mp hzero
    rw [ofRange, dif_pos hblock] at h
    cases h
  rcases ofRange_cases hpos offset len with
    ⟨-, hrange⟩ | ⟨-, -, span, hrange, -, -, hsize⟩ | ⟨-, -, hrange⟩
  · rw [hrange] at h
    cases h
  · rw [hrange] at h
    cases h
    exact hsize
  · rw [hrange] at h
    cases h

/-- The pieces of the span are those of the range, byte by byte, and are made without wrapping. -/
structure Exact (s : Span) (offset len : Nat) : Prop where
  indices : s.pieces.map (fun piece => piece.index.number.toNat) =
    List.range' (offset / s.blockSize.toNat)
      ((offset + len - 1) / s.blockSize.toNat - offset / s.blockSize.toNat + 1)
  first : s.first.number.toNat = offset / s.blockSize.toNat
  last : s.last.number.toNat = (offset + len - 1) / s.blockSize.toNat
  count : s.count.toNat = s.pieces.length
  len_pos : forall piece, piece ∈ s.pieces -> 0 < piece.len
  within : forall piece, piece ∈ s.pieces -> piece.start + piece.len <= s.blockSize.toNat
  position : forall p, offset <= p -> p < offset + len ->
    exists piece, piece ∈ s.pieces ∧ piece.Contains s.blockSize.toNat p ∧
      (forall other, other ∈ s.pieces -> other.Contains s.blockSize.toNat p -> other = piece) ∧
      piece.index.number.toNat = p / s.blockSize.toNat ∧
      piece.start + (p - offset - piece.dest) = p % s.blockSize.toNat ∧
      piece.dest <= p - offset ∧ p - offset < piece.dest + piece.len
  last? : s.last? = some s.last
  count? : s.count? = some s.count
  pieceAt? : forall piece, piece ∈ s.pieces -> s.pieceAt? piece.index.number = some piece
  byteOffset? : forall piece, piece ∈ s.pieces ->
    (piece.index.byteOffset? s.blockSize).isSome = true

theorem exact_of_eq {offset len : Nat} (hoffset : s.offset.toNat = offset)
    (hstop : s.stop.toNat = offset + len) : s.Exact offset len := by
  have hpos := s.size_pos
  have htiled := s.tiled_pieces
  have hcount := s.toNat_count
  have hfirst := s.toNat_first
  have hlast := s.toNat_last
  have hindices := s.map_index_pieces
  have hlength := congrArg List.length hindices
  rw [List.length_map, List.length_range'] at hlength
  rw [hoffset, hstop] at htiled
  rw [hoffset, hstop] at hcount
  rw [hoffset, hcount] at hindices
  constructor
  · exact hindices
  · rw [hfirst, hoffset]
  · rw [hlast, hstop]
  · exact hlength.symm
  · exact fun piece hpiece => htiled.len_pos hpos hpiece
  · exact fun piece hpiece => (htiled.placed hpos (Nat.le_refl _) hpiece).within
  · intro p hlo hhi
    rcases htiled.exists_contains hlo hhi with ⟨piece, hpiece, hcontains⟩
    have hplaced := htiled.placed hpos (Nat.le_refl _) hpiece
    refine ⟨piece, hpiece, hcontains, ?_, (hplaced.div_eq hcontains).symm,
      hplaced.position_eq hcontains⟩
    intro other hother hcontains'
    exact htiled.eq_of_contains hpos (Nat.le_refl _) hother hpiece hcontains' hcontains
  · exact s.last?_eq
  · exact s.count?_eq
  · intro piece hpiece
    rcases exists_eq_pieceAt hpiece with ⟨k, hfirst', hlast', rfl⟩
    exact pieceAt?_eq hfirst' hlast'
  · exact fun piece hpiece => byteOffset?_isSome hpiece

/-!
# Ranges and their spans
-/

variable {blockSize : UInt32}

theorem ofRange_eq_zeroBlockSize_iff {offset : ByteOffset} {len : Nat} :
    ofRange offset len blockSize = .error .zeroBlockSize <-> blockSize = 0 := by
  constructor
  · intro hzero
    by_contra hne
    rcases ofRange_cases (UInt32.pos_iff_ne_zero.mpr hne) offset len with
      ⟨-, hrange⟩ | ⟨-, -, span, hrange, -⟩ | ⟨-, -, hrange⟩ <;>
    · rw [hrange] at hzero
      cases hzero
  · intro hzero
    rw [ofRange, dif_pos hzero]

theorem ofRange_eq_none_iff (hsize : 0 < blockSize.toNat) {offset : ByteOffset} {len : Nat} :
    ofRange offset len blockSize = .ok none <-> len = 0 := by
  rcases ofRange_cases hsize offset len with
    ⟨hlen, hrange⟩ | ⟨hpos, -, span, hrange, -⟩ | ⟨hpos, -, hrange⟩
  · exact iff_of_true hrange hlen
  · rw [hrange]
    exact iff_of_false nofun (Nat.ne_of_gt hpos)
  · rw [hrange]
    exact iff_of_false nofun (Nat.ne_of_gt hpos)

theorem ofRange_eq_overflow_iff (hsize : 0 < blockSize.toNat) {offset : ByteOffset} {len : Nat}
    (hlen : len ≠ 0) :
    ofRange offset len blockSize = .error (.overflow offset len) <->
      UInt64.size - 1 < offset.number.toNat + len := by
  have hwords : 0 < UInt64.size := by decide
  rcases ofRange_cases hsize offset len with
    ⟨hzero, -⟩ | ⟨-, hfits, span, hrange, -⟩ | ⟨-, hover, hrange⟩
  · exact absurd hzero hlen
  · rw [hrange]
    exact iff_of_false nofun (by omega)
  · exact iff_of_true hrange (by omega)

theorem exists_exact (hsize : 0 < blockSize.toNat) {offset : ByteOffset} {len : Nat}
    (hlen : len ≠ 0) (hfits : offset.number.toNat + len <= UInt64.size - 1) :
    exists span, ofRange offset len blockSize = .ok (some span) ∧ span.blockSize = blockSize ∧
      span.Exact offset.number.toNat len := by
  have hwords : 0 < UInt64.size := by decide
  rcases ofRange_cases hsize offset len with
    ⟨hzero, -⟩ | ⟨-, -, span, hrange, hoffset, hstop, hblock⟩ | ⟨-, hover, -⟩
  · exact absurd hzero hlen
  · exact ⟨span, hrange, hblock, exact_of_eq hoffset hstop⟩
  · omega

end Span

/-!
# Blocks that are asked for
-/

namespace FileTable

variable {φ η : Type} [FileSystem φ η]

/-- A table refuses a block for its offset only if the block begins beyond the words. -/
theorem answer_ne_offsetError {table : FileTable φ η} {fd : FileDescriptor} {index : BlockIndex}
    {blockSize : UInt32} (h : (index.byteOffset? blockSize).isSome = true) (other : BlockIndex)
    (otherSize : UInt32) :
    (BlockSource.fetch table fd index blockSize).answer ≠ .error (offsetError other otherSize) := by
  rcases Option.isSome_iff_exists.mp h with ⟨start, hstart⟩
  intro hanswer
  change (fetch table fd index blockSize).answer = _ at hanswer
  unfold fetch at hanswer
  cases hfile : table.files[fd]? with
  | none => simp [hfile, offsetError] at hanswer
  | some handle =>
      simp only [hfile, hstart] at hanswer
      cases hbytes : (FileSystem.readFull table.fs handle start.number blockSize.toNat).1 with
      | error cause => simp [hbytes, offsetError] at hanswer
      | ok bytes => simp [hbytes] at hanswer

end FileTable

theorem offset_text_ne_range_text (rest rest' : String) :
    "block offset overflow: block=" ++ rest ≠ "byte range overflows: offset=" ++ rest' := by
  intro h
  have hletters := congrArg (fun text => text.toList.take 2) h
  have hblock : "block offset overflow: block=".toList =
      'b' :: 'l' :: "ock offset overflow: block=".toList := by decide
  have hbyte : "byte range overflows: offset=".toList =
      'b' :: 'y' :: "te range overflows: offset=".toList := by decide
  simp only [String.toList_append, hblock, hbyte, List.cons_append, List.take_succ_cons,
    List.take_zero] at hletters
  cases hletters

theorem ofRange_ne_offsetError (offset : ByteOffset) (len : Nat) (index : BlockIndex)
    (blockSize : UInt32) :
    Error.ofRange (.overflow offset len) ≠ FileTable.offsetError index blockSize := by
  intro h
  unfold Error.ofRange RangeError.message FileTable.offsetError at h
  have htext := Error.rangeOverflow.inj h
  clear h
  dsimp only at htext
  simp only [String.append_assoc] at htext
  exact offset_text_ne_range_text _ _ htext.symm

namespace Cache

section Calls

variable {σ : Type} {config : Config} {c : Cache σ} {s : Contents config}

theorem byteOffset?_isSome_of_mem_piecesOf {offset : ByteOffset} {len : Nat} {piece : Piece}
    (hpiece : piece ∈ c.piecesOf offset len) :
    (piece.index.byteOffset? c.config.blockSize).isSome = true := by
  unfold piecesOf at hpiece
  cases hrange : Span.ofRange offset len c.config.blockSize with
  | error e => simp [hrange] at hpiece
  | ok found =>
      cases found with
      | none => simp [hrange] at hpiece
      | some span =>
          simp only [hrange] at hpiece
          rw [<- Span.blockSize_of_ofRange hrange]
          exact Span.byteOffset?_isSome hpiece

variable [BlockSource σ]

theorem exists_piece_of_call (hvalid : config.Valid) (h : Coherent config c s)
    {fd : FileDescriptor} {offset : ByteOffset} {buf : Bytes}
    {twin : Step (Recorded σ) (Reading (Except Error Nat))}
    (htwin : c.recorded.read fd offset buf = .ok twin) {call : Call}
    (hcall : call ∈ twin.cache.source.calls) :
    exists piece source, piece ∈ c.recorded.piecesOf offset buf.length ∧
      call.key = ⟨fd, piece.index⟩ ∧ call.answer =
        (BlockSource.fetch (source : σ) fd piece.index config.blockSize).answer := by
  rcases (read_chronicle hvalid h.recorded fd offset buf).of_eq htwin with ⟨-, s', hread, -⟩
  have hpaced : Paced fd (c.recorded.piecesOf offset buf.length) c.recorded
      (c.recorded.journal (.read fd offset buf)) := readJournal_paced hvalid h.recorded _
  have hmade : call ∈ (c.recorded.journal (.read fd offset buf)).filterMap Moment.call? := by
    rw [hread.calls, List.mem_append, List.mem_reverse] at hcall
    rcases hcall with hmade | hnone
    · exact hmade
    · cases hnone
  rcases List.mem_filterMap.mp hmade with ⟨m, hm, hsome⟩
  have hdeed : m.deed ∈ (c.recorded.journal (.read fd offset buf)).map Moment.deed :=
    List.mem_map_of_mem hm
  rw [hpaced.deeds] at hdeed
  rcases List.mem_map.mp hdeed with ⟨piece, hpiece, haccess⟩
  have hkey : call.key = ⟨fd, piece.index⟩ :=
    Deed.access.inj ((Moment.deed_of_call? hsome).symm.trans haccess.symm)
  rcases hread.of_mem hm with ⟨t, t', hbefore, -, -⟩
  refine ⟨piece, m.before.source.source, List.mem_of_mem_take hpiece, hkey, ?_⟩
  have hanswer := Moment.call?_of_fetches (Moment.fetches_of_call? hsome)
  rw [hsome] at hanswer
  rw [congrArg Call.answer (Option.some.inj hanswer), hkey, supply, hbefore.config_eq]
  rfl

theorem byteOffset?_isSome_of_call (hvalid : config.Valid) (h : Coherent config c s)
    {fd : FileDescriptor} {offset : ByteOffset} {buf : Bytes}
    {twin : Step (Recorded σ) (Reading (Except Error Nat))}
    (htwin : c.recorded.read fd offset buf = .ok twin) {call : Call}
    (hcall : call ∈ twin.cache.source.calls) :
    (call.key.index.byteOffset? config.blockSize).isSome = true := by
  rcases exists_piece_of_call hvalid h htwin hcall with ⟨piece, source, hpiece, hkey, -⟩
  have hsome := byteOffset?_isSome_of_mem_piecesOf hpiece
  rw [hkey, <- h.config_eq]
  exact hsome

end Calls

section FileTables

variable {φ η : Type} [FileSystem φ η] {config : Config} {c : Cache (FileTable φ η)}
  {s : Contents config}

theorem answer_of_call_ne_offsetError (hvalid : config.Valid) (h : Coherent config c s)
    {fd : FileDescriptor} {offset : ByteOffset} {buf : Bytes}
    {twin : Step (Recorded (FileTable φ η)) (Reading (Except Error Nat))}
    (htwin : c.recorded.read fd offset buf = .ok twin) {call : Call}
    (hcall : call ∈ twin.cache.source.calls) (index : BlockIndex) (blockSize : UInt32) :
    call.answer ≠ .error (FileTable.offsetError index blockSize) := by
  have hsome := byteOffset?_isSome_of_call hvalid h htwin hcall
  rcases exists_piece_of_call hvalid h htwin hcall with ⟨piece, source, -, hkey, hanswer⟩
  rw [hkey] at hsome
  rw [hanswer]
  exact FileTable.answer_ne_offsetError hsome index blockSize

theorem result_ne_offsetError (hvalid : config.Valid) (h : Coherent config c s)
    {fd : FileDescriptor} {offset : ByteOffset} {buf : Bytes}
    {twin : Step (Recorded (FileTable φ η)) (Reading (Except Error Nat))}
    (htwin : c.recorded.read fd offset buf = .ok twin) (index : BlockIndex) (blockSize : UInt32) :
    twin.value.result ≠ .error (FileTable.offsetError index blockSize) := by
  intro hresult
  rcases (read_completes hvalid h.recorded fd offset buf).of_eq htwin with ⟨s', hdone, -⟩
  rcases hdone.exists_cause hresult with ⟨-, hrange⟩ | ⟨c₁, s₁, key, -, hcall, hcause⟩
  · exact ofRange_ne_offsetError offset buf.length index blockSize hrange.symm
  · generalize hwhat : FileTable.offsetError index blockSize = e at hcause
    cases hcause with
    | failed hanswer =>
        rw [<- hwhat] at hanswer
        exact answer_of_call_ne_offsetError hvalid h htwin hcall index blockSize hanswer
    | oversized _ _ => cases hwhat

end FileTables
end Cache

/--
A range has no span if blocks have no bytes, if it is empty, or if it ends beyond the 64-bit
offsets, and for no other reason. The span of any other range is exact: one piece for each
block, every byte in exactly one of them, and no number wrapped on the way. So no table of
open files refuses a block of the span for beginning beyond the 64-bit offsets, and no read is
refused for that, whatever files are opened and closed before it.
-/
theorem ofRange_exact (offset : ByteOffset) (len : Nat) (blockSize : UInt32) :
    (Span.ofRange offset len blockSize = .error .zeroBlockSize <-> blockSize = 0) ∧
      (blockSize ≠ 0 ->
        (Span.ofRange offset len blockSize = .ok none <-> len = 0) ∧
          (len ≠ 0 ->
            (Span.ofRange offset len blockSize = .error (.overflow offset len) <->
              UInt64.size - 1 < offset.number.toNat + len) ∧
            (offset.number.toNat + len <= UInt64.size - 1 ->
              exists span, Span.ofRange offset len blockSize = .ok (some span) ∧
                span.blockSize = blockSize ∧ span.Exact offset.number.toNat len))) ∧
      (forall {φ η : Type} [FileSystem φ η] (table : FileTable φ η) (fd : FileDescriptor)
        {span : Span} {piece : Piece}, Span.ofRange offset len blockSize = .ok (some span) ->
          piece ∈ span.pieces -> forall index size,
            (BlockSource.fetch table fd piece.index blockSize).answer ≠
              .error (FileTable.offsetError index size)) ∧
      forall {φ η : Type} [FileSystem φ η] {config : Config} {c : Cache (FileTable φ η)},
        Cache.Visited config c -> forall (fd : FileDescriptor) (buf : Bytes),
          Completes (c.recorded.read fd offset buf) fun twin =>
            c.read fd offset buf = .ok twin.unrecorded ∧
              (forall call, call ∈ twin.cache.source.calls ->
                (call.key.index.byteOffset? config.blockSize).isSome = true ∧
                  forall index size, call.answer ≠ .error (FileTable.offsetError index size)) ∧
              forall index size,
                twin.value.result ≠ .error (FileTable.offsetError index size) := by
  refine ⟨Span.ofRange_eq_zeroBlockSize_iff, ?_, ?_, ?_⟩
  · intro hne
    have hsize : 0 < blockSize.toNat :=
      UInt32.lt_iff_toNat_lt.mp (UInt32.pos_iff_ne_zero.mpr hne)
    refine ⟨Span.ofRange_eq_none_iff hsize, ?_⟩
    intro hlen
    exact ⟨Span.ofRange_eq_overflow_iff hsize hlen, Span.exists_exact hsize hlen⟩
  · intro φ η _ table fd span piece hrange hpiece
    have hsome := Span.byteOffset?_isSome hpiece
    rw [Span.blockSize_of_ofRange hrange] at hsome
    exact FileTable.answer_ne_offsetError hsome
  · intro φ η _ config c hvisited fd buf
    rcases hvisited.coherent with ⟨hvalid, s, h⟩
    rcases Cache.read_twin_completes hvalid h fd offset buf with ⟨twin, htwin, hread, -⟩
    refine ⟨twin, htwin, hread, ?_, Cache.result_ne_offsetError hvalid h htwin⟩
    intro call hcall
    exact ⟨Cache.byteOffset?_isSome_of_call hvalid h htwin hcall,
      Cache.answer_of_call_ne_offsetError hvalid h htwin hcall⟩

def FileTable.oneFile : FileTable Disk DiskNode :=
  { fs := ⟨[], #[.stored [1, 2]]⟩
    next := ⟨1⟩
    files := Std.TreeMap.insert ∅ ⟨0⟩ (.regular 0) }

theorem ofRange_exact_largest_offset :
    (exists span, Span.ofRange ⟨0xfffffffffffffffc⟩ 3 2 = .ok (some span) ∧
        span.pieces = [⟨⟨0x7ffffffffffffffe⟩, 0, 2, 0⟩, ⟨⟨0x7fffffffffffffff⟩, 0, 1, 2⟩] ∧
        span.Exact 0xfffffffffffffffc 3) ∧
      exists c : Cache (FileTable Disk DiskNode), Cache.Visited Cache.threeBlocks c ∧
        Completes (c.recorded.read ⟨0⟩ ⟨0xfffffffffffffffc⟩ [0, 0, 0]) fun twin =>
          twin.cache.source.history = [⟨⟨0⟩, ⟨0x7ffffffffffffffe⟩⟩] ∧
            forall index size,
              twin.value.result ≠ .error (FileTable.offsetError index size) := by
  rcases ofRange_exact ⟨0xfffffffffffffffc⟩ 3 2 with ⟨-, hranges, -, hreads⟩
  constructor
  · rcases ((hranges (by decide)).2 (by decide)).2 (by decide) with ⟨span, hrange, -, hexact⟩
    have hseen : (Span.ofRange ⟨0xfffffffffffffffc⟩ 3 2).toOption.map
        (Option.map Span.pieces) =
          some (some [⟨⟨0x7ffffffffffffffe⟩, 0, 2, 0⟩, ⟨⟨0x7fffffffffffffff⟩, 0, 1, 2⟩]) := by
      decide +kernel
    rw [hrange] at hseen
    exact ⟨span, hrange, Option.some.inj (Option.some.inj hseen), hexact⟩
  · have hseen : (do
        let created <- (Cache.create Cache.threeBlocks
          (FileTable.empty FileTable.oneFile.fs : FileTable Disk DiskNode)).toOption
        let c := { created.cache with source := FileTable.oneFile }
        let twin <- (c.recorded.read ⟨0⟩ ⟨0xfffffffffffffffc⟩ [0, 0, 0]).toOption
        return twin.cache.source.history) = some [⟨⟨0⟩, ⟨0x7ffffffffffffffe⟩⟩] := by
      decide +kernel
    rcases Cache.create_completes Cache.threeBlocks_valid
      (FileTable.empty FileTable.oneFile.fs : FileTable Disk DiskNode) with ⟨created, hcreate, -⟩
    have hvisited := (Cache.Visited.created hcreate).resourced FileTable.oneFile
    rcases hreads hvisited ⟨0⟩ [0, 0, 0] with ⟨twin, htwin, -, -, hresult⟩
    simp only [hcreate, htwin, Except.toOption, Option.bind_eq_bind, Option.bind_some,
      Option.pure_def, Option.some.injEq] at hseen
    exact ⟨_, hvisited, twin, htwin, hseen, hresult⟩

end BlockCache

import BlockCache.Span
import Mathlib.Data.Nat.Init

/-!
# Tilings

The pieces of a span lie side by side: each begins where the one before it ends, the first
at the offset and the last up to the stop, and none crosses the end of a block. None of
the 64-bit operations that make them wraps.
-/

namespace BlockCache

/--
The pieces cover the positions from `pos` up to `stop`, cut at multiples of `size`, for a
buffer that begins at `origin`.
-/
def Tiled (size origin stop : Nat) : (pos : Nat) -> List Piece -> Prop
  | pos, [] => pos = stop
  | pos, piece :: rest =>
      pos < stop ∧ piece.index.number.toNat = pos / size ∧ piece.start = pos % size ∧
        piece.len = min (size - pos % size) (stop - pos) ∧ piece.dest = pos - origin ∧
        Tiled size origin stop (pos + piece.len) rest

theorem Tiled.ne_nil {size origin stop pos : Nat} {pieces : List Piece}
    (h : Tiled size origin stop pos pieces) (hlt : pos < stop) : pieces ≠ [] := by
  intro hnil
  rw [hnil] at h
  exact Nat.ne_of_lt hlt h

theorem Tiled.inside {size origin stop pos : Nat} {pieces : List Piece} (horigin : origin <= pos)
    (h : Tiled size origin stop pos pieces) {piece : Piece} (hpiece : piece ∈ pieces) :
    piece.dest + piece.len <= stop - origin := by
  induction pieces generalizing pos with
  | nil => cases hpiece
  | cons first rest ih =>
      rcases h with ⟨hlt, -, -, hlen, hdest, hrest⟩
      rcases List.mem_cons.mp hpiece with rfl | hpiece
      · omega
      · exact ih (Nat.le_trans horigin (Nat.le_add_right _ _)) hrest hpiece

theorem Tiled.inside_length {size origin len : Nat} {pieces : List Piece}
    (h : Tiled size origin (origin + len) origin pieces) {piece : Piece} (hpiece : piece ∈ pieces) :
    piece.dest + piece.len <= len := by
  have hend := h.inside (Nat.le_refl _) hpiece
  rw [Nat.add_sub_cancel_left] at hend
  exact hend

theorem Tiled.len_pos {size origin stop pos : Nat} {pieces : List Piece} (hsize : 0 < size)
    (h : Tiled size origin stop pos pieces) {piece : Piece} (hpiece : piece ∈ pieces) :
    0 < piece.len := by
  induction pieces generalizing pos with
  | nil => cases hpiece
  | cons first rest ih =>
      rcases h with ⟨hlt, -, -, hlen, -, hrest⟩
      rcases List.mem_cons.mp hpiece with rfl | hpiece
      · have hmod := Nat.mod_lt pos hsize
        omega
      · exact ih hrest hpiece

theorem Tiled.length_le {size origin stop pos : Nat} {pieces : List Piece} (hsize : 0 < size)
    (h : Tiled size origin stop pos pieces) : pieces.length <= stop - pos := by
  induction pieces generalizing pos with
  | nil => exact Nat.zero_le _
  | cons piece rest ih =>
      have hpos := h.len_pos hsize List.mem_cons_self
      rcases h with ⟨hlt, -, -, hlen, -, hrest⟩
      have hle := ih hrest
      rw [List.length_cons]
      omega

theorem Tiled.le_index {size origin stop pos : Nat} {pieces : List Piece}
    (h : Tiled size origin stop pos pieces) {piece : Piece} (hpiece : piece ∈ pieces) :
    pos / size <= piece.index.number.toNat := by
  induction pieces generalizing pos with
  | nil => cases hpiece
  | cons first rest ih =>
      rcases h with ⟨-, hindex, -, -, -, hrest⟩
      rcases List.mem_cons.mp hpiece with rfl | hpiece
      · exact Nat.le_of_eq hindex.symm
      · exact Nat.le_trans (Nat.div_le_div_right (Nat.le_add_right _ _)) (ih hrest hpiece)

theorem Tiled.next_div_le {size origin stop pos : Nat} {piece : Piece} {rest : List Piece}
    (hsize : 0 < size) (h : Tiled size origin stop pos (piece :: rest)) :
    (pos + piece.len) / size <= pos / size + 1 := by
  rcases h with ⟨-, -, -, hlen, -, -⟩
  have hmod := Nat.mod_lt pos hsize
  have hdiv := Nat.div_add_mod' pos size
  apply Nat.div_le_of_le_mul
  rw [Nat.mul_comm, Nat.succ_mul]
  omega

theorem Tiled.pairwise_index {size origin stop pos : Nat} {pieces : List Piece} (hsize : 0 < size)
    (h : Tiled size origin stop pos pieces) :
    pieces.Pairwise fun piece piece' => piece.index.number < piece'.index.number := by
  induction pieces generalizing pos with
  | nil => exact List.Pairwise.nil
  | cons first rest ih =>
      rcases h with ⟨hlt, hindex, -, hlen, -, hrest⟩
      refine List.pairwise_cons.mpr ⟨?_, ih hrest⟩
      intro piece hpiece
      have hends : pos + first.len = (pos / size + 1) * size := by
        have hmore : pos + first.len < stop := by
          cases rest with
          | nil => cases hpiece
          | cons => exact hrest.1
        have hmod := Nat.mod_lt pos hsize
        have hdiv := Nat.div_add_mod' pos size
        rw [Nat.add_mul, Nat.one_mul]
        omega
      have hnext := hrest.le_index hpiece
      rw [hends, Nat.mul_div_cancel _ hsize] at hnext
      rw [UInt64.lt_iff_toNat_lt, hindex]
      exact hnext

theorem Word.toNat_add_ofNat {a : UInt64} {n : Nat} (h : a.toNat + n < UInt64.size) :
    (a + UInt64.ofNat n).toNat = a.toNat + n := by
  have hword : (UInt64.ofNat n).toNat = n :=
    UInt64.toNat_ofNat_of_lt (Nat.lt_of_le_of_lt (Nat.le_add_left _ _) h)
  rw [UInt64.toNat_add, hword]
  exact Nat.mod_eq_of_lt h

theorem Word.toNat_max (a b : UInt64) : (max a b).toNat = max a.toNat b.toNat := by
  by_cases h : a <= b
  · have hmax : max a b = b := if_pos h
    rw [hmax, Nat.max_eq_right (UInt64.le_iff_toNat_le.mp h)]
  · have hmax : max a b = a := if_neg h
    have hle : b.toNat <= a.toNat := Nat.le_of_not_le (mt UInt64.le_iff_toNat_le.mpr h)
    rw [hmax, Nat.max_eq_left hle]

theorem Word.toNat_min (a b : UInt64) : (min a b).toNat = min a.toNat b.toNat := by
  by_cases h : a <= b
  · have hmin : min a b = a := if_pos h
    rw [hmin, Nat.min_eq_left (UInt64.le_iff_toNat_le.mp h)]
  · have hmin : min a b = b := if_neg h
    have hle : b.toNat <= a.toNat := Nat.le_of_not_le (mt UInt64.le_iff_toNat_le.mpr h)
    rw [hmin, Nat.min_eq_right hle]

namespace Span

variable (s : Span)

/-!
# Numbers of a span
-/

theorem toNat_size : s.size.toNat = s.blockSize.toNat := by
  simp [size]

theorem size_pos : 0 < s.blockSize.toNat :=
  UInt32.lt_iff_toNat_lt.mp s.blockSize_pos

theorem offset_lt : s.offset.toNat < s.stop.toNat :=
  UInt64.lt_iff_toNat_lt.mp s.offset_lt_stop

theorem toNat_first : s.first.number.toNat = s.offset.toNat / s.blockSize.toNat := by
  simp [first, toNat_size]

theorem toNat_last : s.last.number.toNat = (s.stop.toNat - 1) / s.blockSize.toNat := by
  have hlt := s.offset_lt
  have hone : (1 : UInt64) <= s.stop := by
    rw [UInt64.le_iff_toNat_le]
    exact Nat.succ_le_of_lt (Nat.lt_of_le_of_lt (Nat.zero_le _) hlt)
  rw [last, UInt64.toNat_div, UInt64.toNat_sub_of_le _ _ hone, toNat_size]
  rfl

theorem first_le_last :
    s.offset.toNat / s.blockSize.toNat <= (s.stop.toNat - 1) / s.blockSize.toNat := by
  have hlt := s.offset_lt
  exact Nat.div_le_div_right (by omega)

theorem last_lt : (s.stop.toNat - 1) / s.blockSize.toNat + 1 < UInt64.size := by
  have hlast : (s.stop.toNat - 1) / s.blockSize.toNat <= s.stop.toNat - 1 := Nat.div_le_self _ _
  have hstop : s.stop.toNat < UInt64.size := s.stop.toNat_lt
  have hlt := s.offset_lt
  omega

theorem toNat_count : s.count.toNat =
    (s.stop.toNat - 1) / s.blockSize.toNat - s.offset.toNat / s.blockSize.toNat + 1 := by
  have hle : s.first.number <= s.last.number := by
    rw [UInt64.le_iff_toNat_le, toNat_first, toNat_last]
    exact s.first_le_last
  rw [count, UInt64.toNat_add, UInt64.toNat_sub_of_le _ _ hle, toNat_first, toNat_last]
  exact Nat.mod_eq_of_lt (Nat.lt_of_le_of_lt (Nat.succ_le_succ (Nat.sub_le _ _)) s.last_lt)

/-!
# One piece
-/

def startIn (k : Nat) : Nat :=
  max (k * s.blockSize.toNat) s.offset.toNat

def stopIn (k : Nat) : Nat :=
  min (k * s.blockSize.toNat + s.blockSize.toNat) s.stop.toNat

variable {s} {k : Nat}

theorem startIn_lt_stopIn (hfirst : s.offset.toNat / s.blockSize.toNat <= k)
    (hlast : k <= (s.stop.toNat - 1) / s.blockSize.toNat) : s.startIn k < s.stopIn k := by
  have hlt := s.offset_lt
  have hpos := s.size_pos
  have hproduct : k * s.blockSize.toNat <= s.stop.toNat - 1 :=
    (Nat.le_div_iff_mul_le hpos).mp hlast
  have hoffset : s.offset.toNat < (k + 1) * s.blockSize.toNat :=
    (Nat.div_lt_iff_lt_mul hpos).mp (Nat.lt_succ_of_le hfirst)
  rw [Nat.succ_mul] at hoffset
  simp only [startIn, stopIn]
  omega

theorem toNat_ofNat_of_le_last (hlast : k <= (s.stop.toNat - 1) / s.blockSize.toNat) :
    (UInt64.ofNat k).toNat = k := by
  have hbound := s.last_lt
  apply UInt64.toNat_ofNat_of_lt
  omega

theorem toNat_blockStart (hlast : k <= (s.stop.toNat - 1) / s.blockSize.toNat) :
    (UInt64.ofNat k * s.size).toNat = k * s.blockSize.toNat := by
  have hstop : s.stop.toNat < UInt64.size := s.stop.toNat_lt
  have hproduct : k * s.blockSize.toNat <= s.stop.toNat - 1 :=
    (Nat.le_div_iff_mul_le s.size_pos).mp hlast
  rw [UInt64.toNat_mul, toNat_ofNat_of_le_last hlast, toNat_size]
  exact Nat.mod_eq_of_lt (Nat.lt_of_le_of_lt (Nat.le_trans hproduct (Nat.sub_le _ _)) hstop)

theorem toNat_pieceStart (hlast : k <= (s.stop.toNat - 1) / s.blockSize.toNat) :
    (max (UInt64.ofNat k * s.size) s.offset).toNat = s.startIn k := by
  rw [Word.toNat_max, toNat_blockStart hlast, startIn]

theorem toNat_pieceStop (hlast : k <= (s.stop.toNat - 1) / s.blockSize.toNat) :
    (min (Word.addCapped (UInt64.ofNat k * s.size) s.size) s.stop).toNat = s.stopIn k := by
  have hstop : s.stop.toNat < UInt64.size := s.stop.toNat_lt
  rw [Word.toNat_min, Word.toNat_addCapped, toNat_blockStart hlast, toNat_size, stopIn]
  omega

theorem blockStart_le_pieceStart (hlast : k <= (s.stop.toNat - 1) / s.blockSize.toNat) :
    UInt64.ofNat k * s.size <= max (UInt64.ofNat k * s.size) s.offset := by
  rw [UInt64.le_iff_toNat_le, toNat_pieceStart hlast, toNat_blockStart hlast]
  exact Nat.le_max_left _ _

theorem offset_le_pieceStart (hlast : k <= (s.stop.toNat - 1) / s.blockSize.toNat) :
    s.offset <= max (UInt64.ofNat k * s.size) s.offset := by
  rw [UInt64.le_iff_toNat_le, toNat_pieceStart hlast]
  exact Nat.le_max_right _ _

theorem pieceStart_le_pieceStop (hfirst : s.offset.toNat / s.blockSize.toNat <= k)
    (hlast : k <= (s.stop.toNat - 1) / s.blockSize.toNat) :
    max (UInt64.ofNat k * s.size) s.offset <=
      min (Word.addCapped (UInt64.ofNat k * s.size) s.size) s.stop := by
  rw [UInt64.le_iff_toNat_le, toNat_pieceStart hlast, toNat_pieceStop hlast]
  exact Nat.le_of_lt (startIn_lt_stopIn hfirst hlast)

theorem pieceAt_eq (hfirst : s.offset.toNat / s.blockSize.toNat <= k)
    (hlast : k <= (s.stop.toNat - 1) / s.blockSize.toNat) :
    s.pieceAt (UInt64.ofNat k) =
      { index := ⟨UInt64.ofNat k⟩
        start := s.startIn k - k * s.blockSize.toNat
        len := s.stopIn k - s.startIn k
        dest := s.startIn k - s.offset.toNat } := by
  rw [pieceAt, UInt64.toNat_sub_of_le _ _ (blockStart_le_pieceStart hlast),
    UInt64.toNat_sub_of_le _ _ (pieceStart_le_pieceStop hfirst hlast),
    UInt64.toNat_sub_of_le _ _ (offset_le_pieceStart hlast), toNat_pieceStart hlast,
    toNat_pieceStop hlast, toNat_blockStart hlast]

/-!
# All pieces
-/

theorem startIn_div (hfirst : s.offset.toNat / s.blockSize.toNat <= k)
    (hlast : k <= (s.stop.toNat - 1) / s.blockSize.toNat) :
    s.startIn k / s.blockSize.toNat = k := by
  have hlt := startIn_lt_stopIn hfirst hlast
  have hle : k * s.blockSize.toNat <= s.startIn k := Nat.le_max_left _ _
  have hstop : s.stopIn k <= (k + 1) * s.blockSize.toNat := by
    rw [Nat.succ_mul]
    exact Nat.min_le_left _ _
  apply Nat.div_eq_of_lt_le hle
  exact Nat.lt_of_lt_of_le hlt hstop

theorem startIn_mod (hfirst : s.offset.toNat / s.blockSize.toNat <= k)
    (hlast : k <= (s.stop.toNat - 1) / s.blockSize.toNat) :
    s.startIn k % s.blockSize.toNat = s.startIn k - k * s.blockSize.toNat := by
  rw [Nat.mod_eq_sub_mul_div, startIn_div hfirst hlast, Nat.mul_comm]

theorem tiled_cons {rest : List Piece} (hfirst : s.offset.toNat / s.blockSize.toNat <= k)
    (hlast : k <= (s.stop.toNat - 1) / s.blockSize.toNat)
    (hrest : Tiled s.blockSize.toNat s.offset.toNat s.stop.toNat (s.stopIn k) rest) :
    Tiled s.blockSize.toNat s.offset.toNat s.stop.toNat (s.startIn k)
      (s.pieceAt (UInt64.ofNat k) :: rest) := by
  have hlt := startIn_lt_stopIn hfirst hlast
  have hle : k * s.blockSize.toNat <= s.startIn k := Nat.le_max_left _ _
  have hstop : s.stopIn k <= s.stop.toNat := Nat.min_le_right _ _
  have hlen : s.stopIn k - s.startIn k =
      min (s.blockSize.toNat - s.startIn k % s.blockSize.toNat) (s.stop.toNat - s.startIn k) := by
    rw [startIn_mod hfirst hlast, stopIn]
    omega
  rw [pieceAt_eq hfirst hlast]
  refine ⟨Nat.lt_of_lt_of_le hlt hstop, ?_, (startIn_mod hfirst hlast).symm, hlen, rfl, ?_⟩
  · exact (toNat_ofNat_of_le_last hlast).trans (startIn_div hfirst hlast).symm
  · rw [Nat.add_sub_cancel' (Nat.le_of_lt hlt)]
    exact hrest

theorem stopIn_last (hlast : k = (s.stop.toNat - 1) / s.blockSize.toNat) :
    s.stopIn k = s.stop.toNat := by
  have hlt := s.offset_lt
  have hbound : s.stop.toNat - 1 < (k + 1) * s.blockSize.toNat :=
    (Nat.div_lt_iff_lt_mul s.size_pos).mp (hlast ▸ Nat.lt_succ_self k)
  rw [Nat.succ_mul] at hbound
  rw [stopIn]
  omega

theorem stopIn_eq_startIn_succ (hfirst : s.offset.toNat / s.blockSize.toNat <= k)
    (hlast : k + 1 <= (s.stop.toNat - 1) / s.blockSize.toNat) :
    s.stopIn k = s.startIn (k + 1) := by
  have hproduct : (k + 1) * s.blockSize.toNat <= s.stop.toNat - 1 :=
    (Nat.le_div_iff_mul_le s.size_pos).mp hlast
  have hoffset : s.offset.toNat < (k + 1) * s.blockSize.toNat :=
    (Nat.div_lt_iff_lt_mul s.size_pos).mp (Nat.lt_succ_of_le hfirst)
  rw [stopIn, startIn]
  rw [Nat.succ_mul] at hproduct hoffset ⊢
  omega

theorem tiled_from {n : Nat} (hfirst : s.offset.toNat / s.blockSize.toNat <= k)
    (hlast : k + n = (s.stop.toNat - 1) / s.blockSize.toNat) :
    Tiled s.blockSize.toNat s.offset.toNat s.stop.toNat (s.startIn k)
      ((List.range' k (n + 1)).map fun i => s.pieceAt (UInt64.ofNat i)) := by
  induction n generalizing k with
  | zero => exact tiled_cons hfirst (Nat.le_of_eq hlast) (stopIn_last hlast)
  | succ n ih =>
      have hnext : k + 1 <= (s.stop.toNat - 1) / s.blockSize.toNat := by
        rw [<- hlast]
        omega
      rw [List.range'_succ, List.map_cons]
      apply tiled_cons hfirst (Nat.le_of_succ_le hnext)
      rw [stopIn_eq_startIn_succ hfirst hnext]
      exact ih (Nat.le_succ_of_le hfirst) (by rw [<- hlast]; omega)

theorem pieces_eq (s : Span) :
    s.pieces = (List.range' (s.offset.toNat / s.blockSize.toNat) s.count.toNat).map
      fun i => s.pieceAt (UInt64.ofNat i) := by
  rw [pieces, firstPieces, Nat.min_self, List.range'_eq_map_range, List.map_map]
  apply List.map_congr_left
  intro i hi
  rw [Function.comp_apply, UInt64.ofNat_add, <- toNat_first, UInt64.ofNat_toNat]

theorem tiled_pieces (s : Span) :
    Tiled s.blockSize.toNat s.offset.toNat s.stop.toNat s.offset.toNat s.pieces := by
  have hstart : s.startIn (s.offset.toNat / s.blockSize.toNat) = s.offset.toNat :=
    Nat.max_eq_right (Nat.div_mul_le_self _ _)
  have htiled := tiled_from (s := s) (Nat.le_refl _) (Nat.add_sub_cancel' s.first_le_last)
  rw [pieces_eq, toNat_count]
  rw [hstart] at htiled
  exact htiled

/-!
# Ranges
-/

/-- A range of bytes is empty, or a span, or ends outside the 64-bit offsets. -/
theorem ofRange_cases {blockSize : UInt32} (hsize : 0 < blockSize.toNat) (offset : ByteOffset)
    (len : Nat) :
    (len = 0 ∧ ofRange offset len blockSize = .ok none) ∨
      (0 < len ∧ offset.number.toNat + len < UInt64.size ∧
        exists s, ofRange offset len blockSize = .ok (some s) ∧
          s.offset.toNat = offset.number.toNat ∧ s.stop.toNat = offset.number.toNat + len ∧
          s.blockSize = blockSize) ∨
      (0 < len ∧ UInt64.size <= offset.number.toNat + len ∧
        ofRange offset len blockSize = .error (.overflow offset len)) := by
  have hne : blockSize ≠ 0 := by
    rintro rfl
    exact Nat.lt_irrefl 0 hsize
  unfold ofRange
  rw [dif_neg hne]
  by_cases hlen : len = 0
  · exact .inl ⟨hlen, dif_pos hlen⟩
  · have hpos : 0 < len := Nat.pos_of_ne_zero hlen
    rw [dif_neg hlen]
    by_cases hfits : offset.number.toNat + len < UInt64.size
    · exact .inr (.inl ⟨hpos, hfits, _, dif_pos hfits, rfl, Word.toNat_add_ofNat hfits, rfl⟩)
    · exact .inr (.inr ⟨hpos, Nat.le_of_not_lt hfits, dif_neg hfits⟩)

end Span
end BlockCache
